/-!
# The built-in runtime

The text that every bundle starts with. Loaded in a page or by a module system, it keeps the factories
of modules, requires them on demand, and loads the chunks that a bundle names. Only the first one that
is loaded installs itself.
-/

namespace Bundling.Runtime

/-- What the runtime installs itself as. -/
def globalName : String := "__bale"

/-- The lines of the built-in runtime. -/
def lines : List String := [
  "var __bale = (function(global) \x7b",
  "  if (global.__bale) \x7b",
  "    return global.__bale",
  "  \x7d",
  "",
  "  var EXTENSIONS = ['', '.js', '.mjs', '.cjs', '.json', '/index.js', '/index.json']",
  "  var factories = \x7b\x7d",
  "  var cache = \x7b\x7d",
  "  var sources = \x7b\x7d",
  "  var byPath = \x7b\x7d",
  "  var dependencies = \x7b\x7d",
  "  var loaded = \x7b\x7d",
  "  var loading = \x7b\x7d",
  "  var currentScript = typeof document !== 'undefined' && document.currentScript ? document.currentScript.src : null",
  "",
  "  function dirname(path) \x7b",
  "    var index = path.lastIndexOf('/')",
  "    return index === -1 ? '' : path.slice(0, index)",
  "  \x7d",
  "",
  "  function normalize(path) \x7b",
  "    var parts = path.split('/')",
  "    var output = []",
  "    for (var i = 0; i < parts.length; i++) \x7b",
  "      var part = parts[i]",
  "      if (part === '.' || (part === '' && i > 0)) continue",
  "      if (part === '..') \x7b",
  "        if (output.length > 1) output.pop()",
  "        continue",
  "      \x7d",
  "      output.push(part)",
  "    \x7d",
  "    return output.join('/')",
  "  \x7d",
  "",
  "  function lookup(path) \x7b",
  "    for (var i = 0; i < EXTENSIONS.length; i++) \x7b",
  "      var candidate = path + EXTENSIONS[i]",
  "      if (Object.prototype.hasOwnProperty.call(byPath, candidate)) \x7b",
  "        return byPath[candidate]",
  "      \x7d",
  "    \x7d",
  "    return null",
  "  \x7d",
  "",
  "  function resolve(request, from) \x7b",
  "    var known = from !== null ? dependencies[from] : null",
  "    if (known && Object.prototype.hasOwnProperty.call(known, request)) \x7b",
  "      return known[request]",
  "    \x7d",
  "    if (Object.prototype.hasOwnProperty.call(factories, request)) \x7b",
  "      return request",
  "    \x7d",
  "    var source = from !== null ? sources[from] : null",
  "    if (source && (request.slice(0, 2) === './' || request.slice(0, 3) === '../')) \x7b",
  "      var found = lookup(normalize(dirname(source) + '/' + request))",
  "      if (found !== null) return found",
  "    \x7d else if (source) \x7b",
  "      var root = source.split('/')[0]",
  "      var directory = dirname(source)",
  "      while (directory.length >= root.length) \x7b",
  "        var candidate = lookup(directory + '/node_modules/' + request)",
  "        if (candidate !== null) return candidate",
  "        if (directory === root) break",
  "        directory = dirname(directory)",
  "      \x7d",
  "    \x7d",
  "    var error = new Error(\"Cannot find module '\" + request + \"'\" + (from !== null ? \" from '\" + from + \"'\" : ''))",
  "    error.code = 'MODULE_NOT_FOUND'",
  "    throw error",
  "  \x7d",
  "",
  "  function requireFrom(from) \x7b",
  "    return function(request) \x7b",
  "      var id = resolve(request, from)",
  "      if (Object.prototype.hasOwnProperty.call(cache, id)) \x7b",
  "        return cache[id].exports",
  "      \x7d",
  "      var module = \x7b id: id, exports: \x7b\x7d, parent: from \x7d",
  "      cache[id] = module",
  "      var source = sources[id] || id",
  "      try \x7b",
  "        factories[id].call(module.exports, source, dirname(source), requireFrom(id), module, module.exports)",
  "      \x7d catch (error) \x7b",
  "        delete cache[id]",
  "        throw error",
  "      \x7d",
  "      return module.exports",
  "    \x7d",
  "  \x7d",
  "",
  "  function loadChunk(chunkId, callback) \x7b",
  "    if (loaded[chunkId]) \x7b",
  "      callback(null)",
  "      return",
  "    \x7d",
  "    if (loading[chunkId]) \x7b",
  "      loading[chunkId].push(callback)",
  "      return",
  "    \x7d",
  "    loading[chunkId] = [callback]",
  "    var settle = function(error) \x7b",
  "      var callbacks = loading[chunkId]",
  "      delete loading[chunkId]",
  "      if (!error) loaded[chunkId] = true",
  "      for (var i = 0; i < callbacks.length; i++) callbacks[i](error)",
  "    \x7d",
  "    var name = chunkId + '.js'",
  "    if (typeof document !== 'undefined') \x7b",
  "      var script = document.createElement('script')",
  "      script.src = currentScript ? currentScript.replace(/[^/]*$/, name) : name",
  "      script.onload = function() \x7b settle(null) \x7d",
  "      script.onerror = function() \x7b settle(new Error('Failed to load chunk ' + chunkId)) \x7d",
  "      document.head.appendChild(script)",
  "    \x7d else if (typeof require === 'function' && typeof __dirname === 'string') \x7b",
  "      try \x7b",
  "        require(require('path').join(__dirname, name))",
  "        settle(null)",
  "      \x7d catch (error) \x7b",
  "        settle(error)",
  "      \x7d",
  "    \x7d else \x7b",
  "      settle(new Error('No chunk loader available for ' + chunkId))",
  "    \x7d",
  "  \x7d",
  "",
  "  var runtime = \x7b",
  "    registerModule: function(id, factory) \x7b",
  "      factories[id] = factory",
  "      delete cache[id]",
  "    \x7d,",
  "    registerMappings: function(chunkId, mappings, requests) \x7b",
  "      for (var id in mappings) \x7b",
  "        if (Object.prototype.hasOwnProperty.call(mappings, id)) \x7b",
  "          sources[id] = mappings[id]",
  "          byPath[mappings[id]] = id",
  "        \x7d",
  "      \x7d",
  "      for (var from in requests || \x7b\x7d) \x7b",
  "        if (Object.prototype.hasOwnProperty.call(requests, from)) \x7b",
  "          dependencies[from] = requests[from]",
  "        \x7d",
  "      \x7d",
  "      loaded[chunkId] = true",
  "    \x7d,",
  "    require: requireFrom(null),",
  "    ensure: function(chunkIds, from, callback) \x7b",
  "      var remaining = chunkIds.length",
  "      var failed = false",
  "      if (remaining === 0) \x7b",
  "        callback()",
  "        return",
  "      \x7d",
  "      for (var i = 0; i < chunkIds.length; i++) \x7b",
  "        loadChunk(chunkIds[i], function(error) \x7b",
  "          if (failed) return",
  "          if (error) \x7b",
  "            failed = true",
  "            throw error",
  "          \x7d",
  "          if (--remaining === 0) callback()",
  "        \x7d)",
  "      \x7d",
  "    \x7d,",
  "  \x7d",
  "",
  "  global.__bale = runtime",
  "  return runtime",
  "\x7d)(typeof globalThis !== 'undefined' ? globalThis : typeof window !== 'undefined' ? window : this)"]

/-- The text of the built-in runtime, without a line end after it. -/
def text : String := "\n".intercalate lines

end Bundling.Runtime
