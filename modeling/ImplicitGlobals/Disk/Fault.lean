/-!
# Disk faults

Why an operation on files is refused, in the system's own words.
-/

namespace ImplicitGlobals

inductive DiskFault where
  | notFound
  | busy
  | alreadyExists
  | notDirectory
  | isDirectory
  | invalid
  | nameTooLong
  | notEmpty
  /-- A path may not hold the character with code 0. -/
  | zeroByte
  | other (text : String)
deriving DecidableEq, Repr, Inhabited

def DiskFault.message : DiskFault → String
  | notFound => "No such file or directory (os error 2)"
  | busy => "Device or resource busy (os error 16)"
  | alreadyExists => "File exists (os error 17)"
  | notDirectory => "Not a directory (os error 20)"
  | isDirectory => "Is a directory (os error 21)"
  | invalid => "Invalid argument (os error 22)"
  | nameTooLong => "File name too long (os error 36)"
  | notEmpty => "Directory not empty (os error 39)"
  | zeroByte => "file name contained an unexpected NUL byte"
  | other text => text

end ImplicitGlobals
