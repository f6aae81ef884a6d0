import Parley.Model.EventStream
import Parley.Model.Request
import Parley.Model.Stream
import Parley.Settings

/-!
# The Messages API as a service

A `Service` is an address and a key.  Asking it takes one exchange over the network, and what the
network does is not ours to say: an `Exchange` records it.  An answer whose status is not one of
success is a failure, by its status; any other is an event stream.
-/

namespace Parley.Model

/-- How the body of an answer ends. -/
inductive BodyEnd where
  | complete
  | broken (reason : String)
  /-- The connection stays open, and nothing more arrives. -/
  | openEnded

/-- What the network does with a request. -/
inductive Exchange where
  | unreachable (reason : String)
  | answered (status : Nat) (chunks : List (List UInt8)) (ending : BodyEnd)

/-- Where the Messages API is, and the key to it. -/
structure Service where
  url : String := "https://api.anthropic.com/v1/messages"
  key : String

namespace Service

/-- The name of the service. -/
def name : String := "anthropic"

/-- The version of the interface that is spoken. -/
def version : String := "2023-06-01"

/-- The models of the service. -/
def models : List String :=
  ["claude-sonnet-4-20250514", "claude-sonnet-4", "claude-opus-4", "claude-haiku-4-5"]

/-- Whether a model is one of the service's: its name starts with the name of one. -/
def supports (model : String) : Bool :=
  models.any fun m => model.startsWith m

/-- The address of the messages below a base address. -/
def messagesUrl (base : String) : String :=
  let base := String.ofList (base.toList.reverse.dropWhile (· = '/')).reverse
  if base.endsWith "/v1/messages" then base else base ++ "/v1/messages"

/-- The service that the settings name. -/
def ofSettings (s : Settings) : Except Error Service :=
  match s.service.apiKey.bind String.nonempty? with
  | none => .error (.config "ANTHROPIC_API_KEY not set")
  | some key =>
    .ok <|
      match s.service.baseUrl with
      | some base => { url := messagesUrl base, key }
      | none => { key }

/-! ## Answers -/

/-- The standard phrases of status codes. -/
def phrases : List (Nat × String) :=
  [(100, "Continue"), (101, "Switching Protocols"), (102, "Processing"), (200, "OK"),
    (201, "Created"), (202, "Accepted"), (203, "Non Authoritative Information"),
    (204, "No Content"), (205, "Reset Content"), (206, "Partial Content"), (207, "Multi-Status"),
    (208, "Already Reported"), (226, "IM Used"), (300, "Multiple Choices"),
    (301, "Moved Permanently"), (302, "Found"), (303, "See Other"), (304, "Not Modified"),
    (305, "Use Proxy"), (307, "Temporary Redirect"), (308, "Permanent Redirect"),
    (400, "Bad Request"), (401, "Unauthorized"), (402, "Payment Required"), (403, "Forbidden"),
    (404, "Not Found"), (405, "Method Not Allowed"), (406, "Not Acceptable"),
    (407, "Proxy Authentication Required"), (408, "Request Timeout"), (409, "Conflict"),
    (410, "Gone"), (411, "Length Required"), (412, "Precondition Failed"),
    (413, "Payload Too Large"), (414, "URI Too Long"), (415, "Unsupported Media Type"),
    (416, "Range Not Satisfiable"), (417, "Expectation Failed"), (418, "I'm a teapot"),
    (421, "Misdirected Request"), (422, "Unprocessable Entity"), (423, "Locked"),
    (424, "Failed Dependency"), (426, "Upgrade Required"), (428, "Precondition Required"),
    (429, "Too Many Requests"), (431, "Request Header Fields Too Large"),
    (451, "Unavailable For Legal Reasons"), (500, "Internal Server Error"),
    (501, "Not Implemented"), (502, "Bad Gateway"), (503, "Service Unavailable"),
    (504, "Gateway Timeout"), (505, "HTTP Version Not Supported"),
    (506, "Variant Also Negotiates"), (507, "Insufficient Storage"), (508, "Loop Detected"),
    (510, "Not Extended"), (511, "Network Authentication Required")]

/-- A status as number and phrase. -/
def statusText (status : Nat) : String :=
  toString status ++ " " ++ (phrases.lookup status).getD "<unknown status code>"

/-- Whether a text holds another. -/
def holds (part : List Char) : List Char → Bool
  | [] => part.isEmpty
  | c :: rest => part.isPrefixOf (c :: rest) || holds part rest

/-- The failure that an answer without success stands for. -/
def failure (status : Nat) (text : String) : Failure :=
  if status = 401 ∨ status = 403 then .authFailed text
  else if status = 429 then .rateLimited 60000
  else if status = 400 ∧ holds "prompt is too long".toList text.toList then .contextOverflow text
  else .requestFailed (statusText status ++ ": " ++ text)

/-- The text of a whole body; a broken one has none. -/
def bodyText (chunks : List (List UInt8)) : BodyEnd → String
  | .complete =>
    match Text.Lossy.decode chunks.flatten with
    | '\uFEFF' :: text => String.ofList text
    | text => String.ofList text
  | _ => ""

/-- What arrives of a body, and whether it goes on without end. -/
def arrivals (chunks : List (List UInt8)) (ending : BodyEnd) : List EventStream.Arrival :=
  (chunks.filter (!·.isEmpty)).map .bytes ++
    match ending with
    | .broken reason => [.broken reason]
    | _ => []

/-- The answer of the service, given what the network did. -/
def answer (s : Service) : Exchange → Except Failure Stream
  | .unreachable reason =>
    .error (.network ("error sending request for url (" ++ s.url ++ "): " ++ reason))
  | .answered status chunks ending =>
    if 200 ≤ status ∧ status < 300 then
      .ok (Stream.ofItems (EventStream.items (arrivals chunks ending)) ++
        match ending with
        | .openEnded => [.silence]
        | _ => [])
    else .error (failure status (bodyText chunks ending))

end Service

end Parley.Model
