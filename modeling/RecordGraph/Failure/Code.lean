/-!
# Fault codes

The ways in which a storage engine can fail, independent of the engine, each with the status and
the message that a caller is shown.
-/

namespace RecordGraph

inductive FaultCode where
  | connectionFailed
  | valueTooLong
  | recordNotFound
  | uniqueViolation
  | foreignKeyViolation
  | constraintViolation
  | invalidStoredValue
  | invalidValue
  | dataValidation
  | queryParse
  | queryValidation
  | rawQueryFailed
  | nullViolation
  | missingValue
  | missingArgument
  | requiredRelationViolation
  | relatedRecordNotFound
  | queryInterpretation
  | recordsNotConnected
  | connectedRecordsNotFound
  | inputError
  | valueOutOfRange
  | tableNotFound
  | columnNotFound
  | inconsistentColumnData
  | poolTimeout
  | requiredRecordNotFound
  | unsupportedFeature
  | multipleErrors
  | transactionError
  | transactionTimeout
  | fulltextIndexNotFound
  | integerOverflow
  | writeConflict
deriving Repr, DecidableEq, Inhabited

namespace FaultCode

def text : FaultCode → String
  | .connectionFailed => "connection_failed"
  | .valueTooLong => "value_too_long"
  | .recordNotFound => "record_not_found"
  | .uniqueViolation => "unique_violation"
  | .foreignKeyViolation => "foreign_key_violation"
  | .constraintViolation => "constraint_violation"
  | .invalidStoredValue => "invalid_stored_value"
  | .invalidValue => "invalid_value"
  | .dataValidation => "data_validation"
  | .queryParse => "query_parse"
  | .queryValidation => "query_validation"
  | .rawQueryFailed => "raw_query_failed"
  | .nullViolation => "null_violation"
  | .missingValue => "missing_value"
  | .missingArgument => "missing_argument"
  | .requiredRelationViolation => "required_relation_violation"
  | .relatedRecordNotFound => "related_record_not_found"
  | .queryInterpretation => "query_interpretation"
  | .recordsNotConnected => "records_not_connected"
  | .connectedRecordsNotFound => "connected_records_not_found"
  | .inputError => "input_error"
  | .valueOutOfRange => "value_out_of_range"
  | .tableNotFound => "table_not_found"
  | .columnNotFound => "column_not_found"
  | .inconsistentColumnData => "inconsistent_column_data"
  | .poolTimeout => "pool_timeout"
  | .requiredRecordNotFound => "required_record_not_found"
  | .unsupportedFeature => "unsupported_feature"
  | .multipleErrors => "multiple_errors"
  | .transactionError => "transaction_error"
  | .transactionTimeout => "transaction_timeout"
  | .fulltextIndexNotFound => "fulltext_index_not_found"
  | .integerOverflow => "integer_overflow"
  | .writeConflict => "write_conflict"

def all : List FaultCode :=
  [.connectionFailed, .valueTooLong, .recordNotFound, .uniqueViolation, .foreignKeyViolation,
   .constraintViolation, .invalidStoredValue, .invalidValue, .dataValidation, .queryParse,
   .queryValidation, .rawQueryFailed, .nullViolation, .missingValue, .missingArgument,
   .requiredRelationViolation, .relatedRecordNotFound, .queryInterpretation,
   .recordsNotConnected, .connectedRecordsNotFound, .inputError, .valueOutOfRange,
   .tableNotFound, .columnNotFound, .inconsistentColumnData, .poolTimeout,
   .requiredRecordNotFound, .unsupportedFeature, .multipleErrors, .transactionError,
   .transactionTimeout, .fulltextIndexNotFound, .integerOverflow, .writeConflict]

def ofText? (s : String) : Option FaultCode := all.find? fun c => c.text == s

/-- The name of a code where it is shown on its own. -/
def label (c : FaultCode) : String := "FaultCode." ++ .ofList (c.text.toList.map Char.toUpper)

def status : FaultCode → Int
  | .recordNotFound | .relatedRecordNotFound | .connectedRecordsNotFound | .tableNotFound
  | .columnNotFound | .requiredRecordNotFound | .fulltextIndexNotFound => 404
  | .connectionFailed | .rawQueryFailed | .multipleErrors | .transactionError => 500
  | .uniqueViolation | .writeConflict => 409
  | .poolTimeout | .transactionTimeout => 408
  | _ => 400

/-- The message that a caller is given; a duplicate is described from the fault itself. -/
def message? : FaultCode → Option String
  | .connectionFailed => some "Connection to the database could not be established"
  | .valueTooLong => some "The provided value for the column is too long"
  | .recordNotFound => some "The record searched for in the where condition does not exist"
  | .uniqueViolation => none
  | .foreignKeyViolation => some "Foreign key constraint failed"
  | .constraintViolation => some "A constraint failed on the database"
  | .invalidStoredValue => some "The value stored in the database is invalid for the field type"
  | .invalidValue => some "The provided value is not valid"
  | .dataValidation => some "Data validation error"
  | .queryParse => some "Failed to parse the query"
  | .queryValidation => some "Failed to validate the query"
  | .rawQueryFailed => some "Raw query failed"
  | .nullViolation => some "Null constraint violation"
  | .missingValue => some "Missing a required value"
  | .missingArgument => some "Missing the required argument"
  | .requiredRelationViolation => some "The change would violate the required relation"
  | .relatedRecordNotFound => some "A related record could not be found"
  | .queryInterpretation => some "Query interpretation error"
  | .recordsNotConnected => some "The records for relation are not connected"
  | .connectedRecordsNotFound => some "The required connected records were not found"
  | .inputError => some "Input error"
  | .valueOutOfRange => some "Value out of range for the type"
  | .tableNotFound => some "The table does not exist in the current database"
  | .columnNotFound => some "The column does not exist in the current database"
  | .inconsistentColumnData => some "Inconsistent column data"
  | .poolTimeout => some "Timed out fetching a new connection from the connection pool"
  | .requiredRecordNotFound => some "Operation failed: required records not found"
  | .unsupportedFeature => some "Database provider does not support this feature"
  | .multipleErrors => some "Multiple errors occurred during query execution"
  | .transactionError => some "Transaction API error"
  | .transactionTimeout => some "Transaction timed out"
  | .fulltextIndexNotFound => some "Cannot find a fulltext index for the search"
  | .integerOverflow => some "A number in the query exceeds 64 bit signed integer"
  | .writeConflict => some "Transaction failed due to write conflict or deadlock"

end FaultCode

/-- The code of a fault: one of the known codes, or a text of the storage's own. -/
inductive FaultLabel where
  | known (code : FaultCode)
  | other (text : String)
deriving Repr, DecidableEq, Inhabited

namespace FaultLabel

def text : FaultLabel → String
  | .known c => c.text
  | .other s => s

/-- The label as it is shown where a fault has no message. -/
def shown : FaultLabel → String
  | .known c => c.label
  | .other s => s

def code? : FaultLabel → Option FaultCode
  | .known c => some c
  | .other s => FaultCode.ofText? s

end FaultLabel

end RecordGraph
