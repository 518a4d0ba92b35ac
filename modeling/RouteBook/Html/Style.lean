/-! The style sheet of the hypertext page. -/
namespace RouteBook.Html

def styleLines : List String :=
  [
   "    <style>",
   "        body \x7b",
   "            font-family: -apple-system, BlinkMacSystemFont, 'Segoe UI', Roboto, Oxygen, Ubuntu, Cantarell, sans-serif;",
   "            line-height: 1.6;",
   "            color: #333;",
   "            max-width: 1200px;",
   "            margin: 0 auto;",
   "            padding: 2rem;",
   "            background: #f5f5f5;",
   "        \x7d",
   "        h1, h2, h3, h4 \x7b color: #2c3e50; \x7d",
   "        h1 \x7b border-bottom: 3px solid #3498db; padding-bottom: 0.5rem; \x7d",
   "        h2 \x7b margin-top: 2rem; border-bottom: 2px solid #ecf0f1; padding-bottom: 0.3rem; \x7d",
   "        h3 \x7b color: #34495e; margin-top: 1.5rem; \x7d",
   "        h4 \x7b",
   "            background: #ecf0f1;",
   "            padding: 0.5rem 1rem;",
   "            border-left: 4px solid #3498db;",
   "            margin: 1rem 0;",
   "        \x7d",
   "        table \x7b",
   "            width: 100%;",
   "            border-collapse: collapse;",
   "            margin: 1rem 0;",
   "            background: white;",
   "            box-shadow: 0 1px 3px rgba(0,0,0,0.1);",
   "        \x7d",
   "        th, td \x7b padding: 0.75rem; text-align: left; border-bottom: 1px solid #ddd; \x7d",
   "        th \x7b background: #34495e; color: white; font-weight: bold; \x7d",
   "        tr:hover \x7b background: #f8f9fa; \x7d",
   "        hr \x7b border: none; border-top: 1px solid #ecf0f1; margin: 2rem 0; \x7d",
   "        .method \x7b",
   "            font-weight: bold;",
   "            padding: 0.2rem 0.5rem;",
   "            border-radius: 3px;",
   "            color: white;",
   "            font-size: 0.9rem;",
   "        \x7d",
   "        .method.green \x7b background: #27ae60; \x7d",
   "        .method.blue \x7b background: #3498db; \x7d",
   "        .method.orange \x7b background: #f39c12; \x7d",
   "        .method.dark-orange \x7b background: #e67e22; \x7d",
   "        .method.red \x7b background: #e74c3c; \x7d",
   "        .method.grey \x7b background: #7f8c8d; \x7d",
   "    </style>",
   "</head>"]

end RouteBook.Html
