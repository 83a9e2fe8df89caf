import ClassScript.Files.Basic
/-!
# The library

The classes and interfaces that come with the compiler: the exceptions, the interface of scripts, and
the script APIs with their implementations. Each has a file of its own below the root of the library.
-/

namespace ClassScript.Library

def exception : List String :=
  ["<?php",
    "",
    "class Exception",
    "\x7b",
    "    protected $message;",
    "",
    "    public function __construct($message = \"\")",
    "    \x7b",
    "        $this->message = $message;",
    "    \x7d",
    "",
    "    public function getMessage()",
    "    \x7b",
    "        return $this->message;",
    "    \x7d",
    "\x7d"]

def typeError : List String :=
  ["<?php",
    "",
    "class TypeError extends Exception",
    "\x7b",
    "\x7d"]

def scriptInterface : List String :=
  ["<?php",
    "",
    "namespace Phpjs;",
    "",
    "/**",
    " * Marks the class the program starts from.",
    " */",
    "interface ScriptInterface",
    "\x7b",
    "\x7d"]

def consoleApi : List String :=
  ["<?php",
    "",
    "namespace Phpjs\\Api;",
    "",
    "interface Console",
    "\x7b",
    "    public function log($message);",
    "",
    "    public function error($message);",
    "\x7d"]

def documentApi : List String :=
  ["<?php",
    "",
    "namespace Phpjs\\Api;",
    "",
    "interface Document",
    "\x7b",
    "    public function write($html);",
    "",
    "    public function getElementById($id);",
    "",
    "    public function setTitle($title);",
    "\x7d"]

def consoleClass : List String :=
  ["<?php",
    "",
    "namespace Phpjs\\Shim;",
    "",
    "class Console implements \\Phpjs\\Api\\Console",
    "\x7b",
    "    public function log($message)",
    "    \x7b",
    "        \\JS\\console->log($message);",
    "    \x7d",
    "",
    "    public function error($message)",
    "    \x7b",
    "        \\JS\\console->error($message);",
    "    \x7d",
    "\x7d"]

def documentClass : List String :=
  ["<?php",
    "",
    "namespace Phpjs\\Shim;",
    "",
    "class Document implements \\Phpjs\\Api\\Document",
    "\x7b",
    "    public function write($html)",
    "    \x7b",
    "        \\JS\\document->write($html);",
    "    \x7d",
    "",
    "    public function getElementById($id)",
    "    \x7b",
    "        return \\JS\\document->getElementById($id);",
    "    \x7d",
    "",
    "    public function setTitle($title)",
    "    \x7b",
    "        \\JS\\document->title = $title;",
    "    \x7d",
    "\x7d"]

/-- The declarations of the library, with the files below its root. -/
def files : List (String × List String) :=
  [("Exception", ["Exception.php"]),
    ("TypeError", ["TypeError.php"]),
    ("Phpjs\\ScriptInterface", ["Phpjs", "ScriptInterface.php"]),
    ("Phpjs\\Api\\Console", ["Phpjs", "Api", "Console.php"]),
    ("Phpjs\\Api\\Document", ["Phpjs", "Api", "Document.php"]),
    ("Phpjs\\Shim\\Console", ["Phpjs", "Shim", "Console.php"]),
    ("Phpjs\\Shim\\Document", ["Phpjs", "Shim", "Document.php"])]

/-- The text of a file, a newline behind each line. -/
def textOf (lines : List String) : String := String.join (lines.map (· ++ "\n"))

/-- The files of the library. -/
def entries : List (Location × FileEntry) :=
  let texts := [exception, typeError, scriptInterface, consoleApi, documentApi, consoleClass,
    documentClass]
  (files.zip texts).map fun ((_, file), lines) => (libraryRoot :: file, .text (textOf lines))

/-- The file of a declaration of the library, below a root. -/
def file? (root : Path) (name : String) : Option Path :=
  (files.lookup name).map fun pieces => root.join ("/".intercalate pieces)

end ClassScript.Library

namespace ClassScript

/-- A file system with the given entries and those of the library. -/
def FileSystem.withLibrary (workingDirectory : Location) (entries : List (Location × FileEntry)) :
    FileSystem :=
  { workingDirectory, entries := entries ++ Library.entries }

end ClassScript
