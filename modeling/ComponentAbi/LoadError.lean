import ComponentAbi.PackageName

/-!
# Failures of loading and configuration
-/

namespace ComponentAbi

/-- Why a file or directory cannot be used. -/
inductive FileError where
  | notFound
  | notDirectory
  | isDirectory
  | permissionDenied
  /-- The path or a part of it is too long. -/
  | nameTooLong
  /-- The path has a character with code 0. -/
  | zeroInPath
  /-- The contents are not UTF-8 text. -/
  | notText
  /-- Any other failure, in the words of the system. -/
  | other (text : String)
deriving DecidableEq, Repr

namespace FileError

/-- The wording of the error. -/
def message : FileError → String
  | notFound => "No such file or directory (os error 2)"
  | notDirectory => "Not a directory (os error 20)"
  | isDirectory => "Is a directory (os error 21)"
  | permissionDenied => "Permission denied (os error 13)"
  | nameTooLong => "File name too long (os error 36)"
  | zeroInPath => "file name contained an unexpected NUL byte"
  | notText => "stream did not contain valid UTF-8"
  | other text => text

end FileError

/-- Why documents cannot be loaded. -/
inductive LoadError where
  /-- A source directory or document cannot be read. -/
  | file (path : String) (cause : FileError)
  /-- The text of a file is not a document. -/
  | document (path : String)
  /-- The files of one directory declare two packages. -/
  | multiplePackages (first second directory : String)
  /-- A file has definitions, but no file of its directory declares a package. -/
  | missingPackage (path : String)
  /-- An item stands where items of its kind are not allowed. -/
  | unexpectedItem (keyword context : String)
  /-- A reference is too short to name something inside a package. -/
  | invalidReference (reference : String)
  /-- A reference is malformed. -/
  | name (cause : NameError)
deriving DecidableEq, Repr

namespace LoadError

/-- The wording of the error. -/
def message : LoadError → String
  | file path cause => "Failed to read '" ++ path ++ "': " ++ cause.message
  | document path => "Failed to parse document '" ++ path ++ "'"
  | multiplePackages first second directory =>
    "Only a single package is allowed per directory. Found multiple packages: " ++ first ++ " and "
      ++ second ++ " in directory '" ++ directory ++ "'."
  | missingPackage path => "Definitions in '" ++ path ++ "' are not inside any package"
  | unexpectedItem keyword context => "'" ++ keyword ++ "' is not allowed in " ++ context
  | invalidReference reference =>
    "'" ++ reference ++ "' does not name an interface or world inside a package"
  | name cause => cause.message

end LoadError

/-- Why a configuration cannot be used. -/
inductive ConfigError where
  /-- The file cannot be read. -/
  | file (path : String) (cause : FileError)
  /-- The text is not a configuration. -/
  | malformed
deriving DecidableEq, Repr

namespace ConfigError

/-- The wording of the error. -/
def message : ConfigError → String
  | file path cause => "Failed to read config file '" ++ path ++ "': " ++ cause.message
  | malformed => "Failed to parse config:"

end ConfigError

end ComponentAbi
