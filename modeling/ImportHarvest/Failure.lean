/-!
What can go wrong. A `Fault` is what a file system or a sink says of an operation, a `Failure` what ends a walk, a read
or a run. Only a malformed document concerns a single file, which is then passed over.
-/

namespace ImportHarvest

/-- why a file system or a sink refuses -/
inductive Fault where
  | notFound
  | notDirectory
  | isDirectory
  | tooManyLinks
  | nameTooLong
  | noDevice
  | nulInPath
  | loopDetected
  | sinkFull
  | flushFailed
  | other (text : String)
  deriving DecidableEq, Repr

def Fault.message : Fault → String
  | .notFound => "No such file or directory (os error 2)"
  | .notDirectory => "Not a directory (os error 20)"
  | .isDirectory => "Is a directory (os error 21)"
  | .tooManyLinks => "Too many levels of symbolic links (os error 40)"
  | .nameTooLong => "File name too long (os error 36)"
  | .noDevice => "No such device or address (os error 6)"
  | .nulInPath => "file name contained an unexpected NUL byte"
  | .loopDetected => "filesystem loop detected"
  | .sinkFull => "sink full"
  | .flushFailed => "flush failed"
  | .other text => text

/-- why a walk, a read or a run ends -/
inductive Failure where
  /-- a listing or a download failed -/
  | transfer (url : String) (detail : String)
  /-- a file's content is no document of its kind -/
  | malformed (detail : String)
  /-- the input names no source -/
  | invalidInput (detail : String)
  /-- a file system refused -/
  | io (path : String) (fault : Fault)
  /-- the configuration has no meaning -/
  | config (detail : String)
  deriving DecidableEq, Repr

namespace Failure

def message : Failure → String
  | transfer url detail => "transfer failed for " ++ url ++ ": " ++ detail
  | malformed detail => "malformed notebook: " ++ detail
  | invalidInput detail => "Invalid input. " ++ detail
  | io path fault => "I/O error at " ++ path ++ ": " ++ fault.message
  | config detail => "configuration error: " ++ detail

/-- whether only the file at hand is concerned -/
def isFileScoped : Failure → Bool
  | malformed _ => true
  | _ => false

/-- the failure and what caused it, from the outside in -/
def chain : Failure → List String
  | io path fault => [message (io path fault), fault.message]
  | f => [f.message]

end Failure

end ImportHarvest
