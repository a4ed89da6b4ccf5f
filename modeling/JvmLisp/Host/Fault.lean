/-! # Failures of the host system

What a host can answer when a file or a stream is read or written. The numbers are the error codes
of the operating system.
-/

namespace JvmLisp.Host

inductive Fault where
  | noSuchFile
  | fileExists
  | notADirectory
  | isADirectory
  | nameTooLong
  | nulInName
  | notText
  /-- Anything else, as the host words it. -/
  | other (message : String)
deriving DecidableEq

def Fault.message : Fault → String
  | noSuchFile => "No such file or directory (os error 2)"
  | fileExists => "File exists (os error 17)"
  | notADirectory => "Not a directory (os error 20)"
  | isADirectory => "Is a directory (os error 21)"
  | nameTooLong => "File name too long (os error 36)"
  | nulInName => "file name contained an unexpected NUL byte"
  | notText => "stream did not contain valid UTF-8"
  | other message => message

end JvmLisp.Host
