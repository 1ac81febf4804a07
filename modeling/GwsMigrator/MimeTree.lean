import GwsMigrator.GraphCalls
import GwsMigrator.Separators

/-! Parsed messages: trees of multiparts, attached messages and leaves. -/
namespace GwsMigrator
open Separators

/-- A content type that is not that of an attached message. -/
structure PartType where
  name : String
  notMessage : name ≠ "message/rfc822"
deriving DecidableEq

/-- A leaf with what the email package says about it: `payload` is its decoded content, and
`text` the same as a text. -/
structure MimeLeaf where
  contentType : PartType
  disposition : Option String
  filename : Option String
  contentId : Option String
  payload : Bytes
  text : String
deriving DecidableEq

/-- What is read of an attached message besides its content: two values of the part, and the
subject of the message in it. -/
structure AttachedHeaders where
  disposition : Option String
  filename : Option String
  subject : Option String
deriving DecidableEq

/-- A part of a message. -/
inductive MimePart where
  | multipart (contentType : PartType) (children : List MimePart)
  | attached (headers : AttachedHeaders) (inner : MimePart)
  | leaf (l : MimeLeaf)

/-- How the email package turns a message into bytes, with the SMTP policy and with the
message's own. None when it raises. -/
structure Serializer where
  smtp : MimePart → Option Bytes
  own : MimePart → Option Bytes

/-- `text or default`. -/
def textOr (text : Option String) (default : String) : String :=
  match text with
  | none => default
  | some text => if text = "" then default else text

/-- The name that `_rfc822_bytes` gives to an attached message. -/
def emlName (headers : AttachedHeaders) : String :=
  let subject := textOr headers.subject "Attached message"
  let name := textOr headers.filename (String.ofList (subject.toList.take 120) ++ ".eml")
  replaceText (replaceText name "\r" " ") "\n" " "

/-- `_rfc822_bytes`. -/
def rfc822Bytes (s : Serializer) (headers : AttachedHeaders) (inner : MimePart) :
    Option (String × Bytes) :=
  ((s.smtp inner).or (s.own inner)).map (fun data => (emlName headers, data))

mutual

/-- The leaves and the attached messages of a part, in order. What is inside an attached message
belongs to it. -/
def units : MimePart → List MimePart
  | .multipart _ children => unitsAll children
  | .attached headers inner => [.attached headers inner]
  | .leaf l => [.leaf l]

def unitsAll : List MimePart → List MimePart
  | [] => []
  | part :: parts => units part ++ unitsAll parts

end

end GwsMigrator
