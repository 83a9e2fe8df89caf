/-!
# The prelude

The JavaScript that every emitted program starts with: the array type, the conversions, the test for
classes and the root of all classes.
-/

namespace ClassScript.Program

def preludeLines : List String :=
  ["/* phpjs runtime */",
    "",
    "function __normalizeKey(key) \x7b",
    "    if (typeof key === \"boolean\") \x7b",
    "        return key ? 1 : 0;",
    "    \x7d",
    "    if (key === null || key === undefined) \x7b",
    "        return \"\";",
    "    \x7d",
    "    if (typeof key === \"number\") \x7b",
    "        return Math.trunc(key);",
    "    \x7d",
    "    if (typeof key === \"string\" && /^(0|-?[1-9][0-9]*)$/.test(key)) \x7b",
    "        var n = Number(key);",
    "        if (Number.isSafeInteger(n)) \x7b",
    "            return n;",
    "        \x7d",
    "    \x7d",
    "    return key;",
    "\x7d",
    "",
    "function PhpArray() \x7b",
    "    this.__items = new Map();",
    "    this.__nextIndex = 0;",
    "\x7d",
    "",
    "PhpArray.prototype.push = function () \x7b",
    "    for (var i = 0; i < arguments.length; i++) \x7b",
    "        this.__items.set(this.__nextIndex, arguments[i]);",
    "        this.__nextIndex++;",
    "    \x7d",
    "    return this;",
    "\x7d;",
    "",
    "PhpArray.prototype.setItemAt = function (key, value) \x7b",
    "    key = __normalizeKey(key);",
    "    this.__items.set(key, value);",
    "    if (typeof key === \"number\" && key >= this.__nextIndex) \x7b",
    "        this.__nextIndex = key + 1;",
    "    \x7d",
    "    return this;",
    "\x7d;",
    "",
    "PhpArray.prototype.getItemAt = function (key) \x7b",
    "    key = __normalizeKey(key);",
    "    return this.__items.has(key) ? this.__items.get(key) : null;",
    "\x7d;",
    "",
    "PhpArray.prototype.hasItemAt = function (key) \x7b",
    "    return this.__items.has(__normalizeKey(key));",
    "\x7d;",
    "",
    "PhpArray.prototype.count = function () \x7b",
    "    return this.__items.size;",
    "\x7d;",
    "",
    "PhpArray.prototype.foreach = function (callback) \x7b",
    "    var entries = Array.from(this.__items.entries());",
    "    for (var i = 0; i < entries.length; i++) \x7b",
    "        if (callback(entries[i][1], entries[i][0]) === false) \x7b",
    "            break;",
    "        \x7d",
    "    \x7d",
    "\x7d;",
    "",
    "PhpArray.prototype.join = function (glue) \x7b",
    "    var parts = [];",
    "    this.__items.forEach(function (value) \x7b",
    "        parts.push(__strval(value));",
    "    \x7d);",
    "    return parts.join(glue);",
    "\x7d;",
    "",
    "PhpArray.prototype.contains = function (value) \x7b",
    "    var found = false;",
    "    this.__items.forEach(function (item) \x7b",
    "        found = found || item == value;",
    "    \x7d);",
    "    return found;",
    "\x7d;",
    "",
    "PhpArray.prototype.keys = function () \x7b",
    "    return __toPhpArray(Array.from(this.__items.keys()));",
    "\x7d;",
    "",
    "PhpArray.prototype.values = function () \x7b",
    "    return __toPhpArray(Array.from(this.__items.values()));",
    "\x7d;",
    "",
    "function __define(target, name, value) \x7b",
    "    Object.defineProperty(target, name, \x7b",
    "        value: value,",
    "        enumerable: false,",
    "        configurable: true,",
    "        writable: true",
    "    \x7d);",
    "\x7d",
    "",
    "__define(Object.prototype, \"__instanceOf\", function () \x7b",
    "    return false;",
    "\x7d);",
    "__define(Array.prototype, \"getItemAt\", function (index) \x7b",
    "    return index in this ? this[index] : null;",
    "\x7d);",
    "__define(Array.prototype, \"setItemAt\", function (index, value) \x7b",
    "    this[index] = value;",
    "    return this;",
    "\x7d);",
    "__define(Array.prototype, \"count\", function () \x7b",
    "    return this.length;",
    "\x7d);",
    "__define(String.prototype, \"getItemAt\", function (index) \x7b",
    "    var s = __unbox(this);",
    "    return index < s.length ? s.charAt(index) : \"\";",
    "\x7d);",
    "__define(String.prototype, \"count\", function () \x7b",
    "    return __unbox(this).length;",
    "\x7d);",
    "__define(Number.prototype, \"concat\", function () \x7b",
    "    return String.prototype.concat.apply(__strval(__unbox(this)), arguments);",
    "\x7d);",
    "__define(Boolean.prototype, \"concat\", function () \x7b",
    "    return String.prototype.concat.apply(__strval(__unbox(this)), arguments);",
    "\x7d);",
    "",
    "function __unbox(value) \x7b",
    "    if (value instanceof String || value instanceof Number || value instanceof Boolean) \x7b",
    "        return value.valueOf();",
    "    \x7d",
    "    return value;",
    "\x7d",
    "",
    "function __toPhpArray(items) \x7b",
    "    var array = new PhpArray();",
    "    for (var i = 0; i < items.length; i++) \x7b",
    "        array.push(items[i]);",
    "    \x7d",
    "    return array;",
    "\x7d",
    "",
    "function __identical(a, b) \x7b",
    "    return __unbox(a) === __unbox(b);",
    "\x7d",
    "",
    "function __instanceOf(value, name) \x7b",
    "    if (value === null || value === undefined) \x7b",
    "        return false;",
    "    \x7d",
    "    return value.__instanceOf(name);",
    "\x7d",
    "",
    "function __isset(value) \x7b",
    "    return value !== null && value !== undefined;",
    "\x7d",
    "",
    "function __isType(value, type) \x7b",
    "    value = __unbox(value);",
    "    switch (type) \x7b",
    "        case \"int\":",
    "            return typeof value === \"number\" && value % 1 === 0;",
    "        case \"numeric\":",
    "            return typeof value === \"number\" || (typeof value === \"string\" && value.trim() !== \"\" && !isNaN(value));",
    "        case \"callable\":",
    "            return typeof value === \"function\";",
    "        case \"object\":",
    "            return value !== null && typeof value === \"object\" && !(value instanceof PhpArray);",
    "    \x7d",
    "    var boxed = __boxed[type];",
    "    return boxed !== undefined && __isset(value) && Object(value) instanceof boxed;",
    "\x7d",
    "",
    "function __gettype(value) \x7b",
    "    value = __unbox(value);",
    "    if (value === null || value === undefined) \x7b",
    "        return \"NULL\";",
    "    \x7d",
    "    switch (typeof value) \x7b",
    "        case \"boolean\":",
    "            return \"boolean\";",
    "        case \"number\":",
    "            return value % 1 === 0 ? \"integer\" : \"double\";",
    "        case \"string\":",
    "            return \"string\";",
    "    \x7d",
    "    return value instanceof PhpArray ? \"array\" : \"object\";",
    "\x7d",
    "",
    "function __empty(value) \x7b",
    "    value = __unbox(value);",
    "    if (value instanceof PhpArray) \x7b",
    "        return value.count() === 0;",
    "    \x7d",
    "    return !__isset(value) || value === false || value === 0 || value === \"\" || value === \"0\";",
    "\x7d",
    "",
    "function __echo() \x7b",
    "    var out = \"\";",
    "    for (var i = 0; i < arguments.length; i++) \x7b",
    "        out += __strval(arguments[i]);",
    "    \x7d",
    "    if (typeof process !== \"undefined\" && process.stdout) \x7b",
    "        process.stdout.write(out);",
    "    \x7d else \x7b",
    "        console.log(out);",
    "    \x7d",
    "\x7d",
    "",
    "function __dump(value, indent) \x7b",
    "    value = __unbox(value);",
    "    if (!(value instanceof PhpArray)) \x7b",
    "        return __strval(value);",
    "    \x7d",
    "    var pad = new Array(indent + 1).join(\" \");",
    "    var out = \"Array\\n\" + pad + \"(\\n\";",
    "    value.__items.forEach(function (item, key) \x7b",
    "        out += pad + \"    [\" + key + \"] => \" + __dump(item, indent + 8) + \"\\n\";",
    "    \x7d);",
    "    return out + pad + \")\\n\";",
    "\x7d",
    "",
    "function print_r(value, asString) \x7b",
    "    var out = __dump(value, 0);",
    "    if (asString) \x7b",
    "        return out;",
    "    \x7d",
    "    __echo(out);",
    "    return true;",
    "\x7d",
    "",
    "function var_dump() \x7b",
    "    for (var i = 0; i < arguments.length; i++) \x7b",
    "        var value = __unbox(arguments[i]);",
    "        var type = __gettype(value);",
    "        if (value instanceof PhpArray) \x7b",
    "            __echo(\"array(\" + value.count() + \") \" + __dump(value, 0));",
    "        \x7d else if (type === \"NULL\") \x7b",
    "            __echo(\"NULL\\n\");",
    "        \x7d else if (type === \"string\") \x7b",
    "            __echo(\"string(\" + value.length + \") \\\"\" + value + \"\\\"\\n\");",
    "        \x7d else if (type === \"boolean\") \x7b",
    "            __echo(\"bool(\" + value + \")\\n\");",
    "        \x7d else if (type === \"integer\") \x7b",
    "            __echo(\"int(\" + value + \")\\n\");",
    "        \x7d else if (type === \"double\") \x7b",
    "            __echo(\"float(\" + value + \")\\n\");",
    "        \x7d else \x7b",
    "            __echo(\"object(\" + type + \")\\n\");",
    "        \x7d",
    "    \x7d",
    "\x7d",
    "",
    "function __copy() \x7b",
    "    var target = \x7b\x7d;",
    "    for (var i = 0; i < arguments.length; i++) \x7b",
    "        var source = arguments[i];",
    "        for (var key in source) \x7b",
    "            if (Object.prototype.hasOwnProperty.call(source, key)) \x7b",
    "                target[key] = source[key];",
    "            \x7d",
    "        \x7d",
    "    \x7d",
    "    return target;",
    "\x7d",
    "",
    "function __intval(value) \x7b",
    "    value = __unbox(value);",
    "    if (typeof value === \"boolean\") \x7b",
    "        return value ? 1 : 0;",
    "    \x7d",
    "    var n = parseInt(value, 10);",
    "    return isNaN(n) ? 0 : n;",
    "\x7d",
    "",
    "function __floatval(value) \x7b",
    "    value = __unbox(value);",
    "    if (typeof value === \"boolean\") \x7b",
    "        return value ? 1 : 0;",
    "    \x7d",
    "    var n = parseFloat(value);",
    "    return isNaN(n) ? 0 : n;",
    "\x7d",
    "",
    "function __strval(value) \x7b",
    "    value = __unbox(value);",
    "    if (value === null || value === undefined || value === false) \x7b",
    "        return \"\";",
    "    \x7d",
    "    if (value === true) \x7b",
    "        return \"1\";",
    "    \x7d",
    "    if (value instanceof PhpArray) \x7b",
    "        return \"Array\";",
    "    \x7d",
    "    return String(value);",
    "\x7d",
    "",
    "function __boolval(value) \x7b",
    "    return !__empty(value);",
    "\x7d",
    "",
    "function __strpos(haystack, needle) \x7b",
    "    var index = __unbox(haystack).indexOf(needle);",
    "    return index === -1 ? false : index;",
    "\x7d",
    "",
    "var __baseClass = \x7b",
    "    __extend: function (createClass) \x7b",
    "        return createClass(\x7b",
    "            __public: \x7b",
    "                __instanceOf: function () \x7b",
    "                    return false;",
    "                \x7d",
    "            \x7d,",
    "            __protected: \x7b\x7d,",
    "            construct: function () \x7b\x7d",
    "        \x7d);",
    "    \x7d,",
    "    __constants: \x7b\x7d",
    "\x7d;"]

/-- The text of the prelude, a newline behind each line. -/
def prelude : String := String.join (preludeLines.map (· ++ "\n"))

end ClassScript.Program
