namespace Compression

/-- What a call reports in place of an exception. -/
inductive ErrorCode where
  | ok
  | inputError
  | outputError
  | formatError
  | truncated
  | corrupt
  | unsupportedInput
  | notImplemented
  | unknownAlgorithm
deriving DecidableEq

def ErrorCode.all : List ErrorCode :=
  [.ok, .inputError, .outputError, .formatError, .truncated, .corrupt, .unsupportedInput,
    .notImplemented, .unknownAlgorithm]

def ErrorCode.number : ErrorCode → Int
  | .ok => 0
  | .inputError => -1
  | .outputError => -2
  | .formatError => -3
  | .truncated => -4
  | .corrupt => -5
  | .unsupportedInput => -6
  | .notImplemented => -7
  | .unknownAlgorithm => -99

def ErrorCode.name : ErrorCode → String
  | .ok => "OK"
  | .inputError => "INPUT_ERROR"
  | .outputError => "OUTPUT_ERROR"
  | .formatError => "FORMAT_ERROR"
  | .truncated => "TRUNCATED"
  | .corrupt => "CORRUPT"
  | .unsupportedInput => "UNSUPPORTED_INPUT"
  | .notImplemented => "NOT_IMPLEMENTED"
  | .unknownAlgorithm => "UNKNOWN_ALGORITHM"

def ErrorCode.ofNumber? (n : Int) : Option ErrorCode :=
  ErrorCode.all.find? fun code => code.number = n

end Compression
