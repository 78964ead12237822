import Calculator.Json.Document
import Calculator.Report

namespace Calculator

/-- The address that stands for one that could not be found out. -/
def unknownAddress : String :=
  "0.0.0.0"

/-- Whether a status tells of success. -/
def isSuccessStatus (status : Nat) : Bool :=
  200 ≤ status && status < 300

/-- What a server answers. -/
structure Reply where
  status : Nat
  body : List UInt8

/-- The body that reaches the client. Two statuses never carry one. -/
def Reply.received (reply : Reply) : List UInt8 :=
  if reply.status = 204 ∨ reply.status = 304 then [] else reply.body

/-- The address in a field: a text, or nothing where the field is null. -/
def JsonValue.address? : JsonValue → Option (Option String)
  | .null => some none
  | .string content => (stringText? content).map some
  | _ => none

/-- The address in a document: the member `ip` of an object, which may hold it once, or the only
item of an array. Other members are skipped, but their names have to be texts. -/
def JsonValue.addressField? : JsonValue → Option (Option String)
  | .object members => do
    let named ← members.mapM fun (name, value) => (stringText? name).map (·, value)
    match named.filter (·.1 == "ip") with
    | [] => some none
    | [(_, value)] => value.address?
    | _ => none
  | .array [item] => item.address?
  | _ => none

/-- The public address that a lookup finds. Nothing stands in its way: without a usable answer the
address is unknown. -/
def publicAddress (reply : Option Reply) : String :=
  let found := do
    let reply ← reply
    if isSuccessStatus reply.status then
      (← JsonValue.ofBytes? reply.received).addressField?
    else none
  match found with
  | some (some address) => if address.isEmpty then unknownAddress else address
  | _ => unknownAddress

/-- A request that carries a record. -/
structure Request where
  method : String
  path : String
  contentType : String
  body : String
deriving DecidableEq, Repr

/-- The request that delivers a record at `path`; an empty path means the root. -/
def Request.ofRecord (path : String) (record : Record) : Request :=
  ⟨"POST", if path.isEmpty then "/" else path, "application/json", record.json⟩

/-- What a delivery comes to, by the status of the answer if there is one. -/
def receptionOf (status : Option Nat) : Reception :=
  match status with
  | some status => if isSuccessStatus status then .accepted else .refused (.status status)
  | none => .refused .transport

end Calculator
