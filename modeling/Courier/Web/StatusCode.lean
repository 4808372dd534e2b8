/-
# Courier.Web.StatusCode -- the outcome of a request as a number

The hundreds of a status code say what kind of outcome it is. Most codes in use have a standard phrase,
and messages show that phrase and not the one that the peer may have sent.
-/

namespace Courier.Web

/-- The outcome that a peer gives to a request. -/
structure StatusCode where
  value : Nat
deriving DecidableEq, Repr

namespace StatusCode

/-- The standard phrases. -/
def phrases : List (Nat × String) := [
  (100, "Continue"), (101, "Switching Protocols"), (102, "Processing"),
  (200, "OK"), (201, "Created"), (202, "Accepted"), (203, "Non Authoritative Information"),
  (204, "No Content"), (205, "Reset Content"), (206, "Partial Content"), (207, "Multi-Status"),
  (208, "Already Reported"), (226, "IM Used"),
  (300, "Multiple Choices"), (301, "Moved Permanently"), (302, "Found"), (303, "See Other"),
  (304, "Not Modified"), (305, "Use Proxy"), (307, "Temporary Redirect"), (308, "Permanent Redirect"),
  (400, "Bad Request"), (401, "Unauthorized"), (402, "Payment Required"), (403, "Forbidden"),
  (404, "Not Found"), (405, "Method Not Allowed"), (406, "Not Acceptable"),
  (407, "Proxy Authentication Required"), (408, "Request Timeout"), (409, "Conflict"), (410, "Gone"),
  (411, "Length Required"), (412, "Precondition Failed"), (413, "Payload Too Large"),
  (414, "URI Too Long"), (415, "Unsupported Media Type"), (416, "Range Not Satisfiable"),
  (417, "Expectation Failed"), (418, "I'm a teapot"), (421, "Misdirected Request"),
  (422, "Unprocessable Entity"), (423, "Locked"), (424, "Failed Dependency"),
  (426, "Upgrade Required"), (428, "Precondition Required"), (429, "Too Many Requests"),
  (431, "Request Header Fields Too Large"), (451, "Unavailable For Legal Reasons"),
  (500, "Internal Server Error"), (501, "Not Implemented"), (502, "Bad Gateway"),
  (503, "Service Unavailable"), (504, "Gateway Timeout"), (505, "HTTP Version Not Supported"),
  (506, "Variant Also Negotiates"), (507, "Insufficient Storage"), (508, "Loop Detected"),
  (510, "Not Extended"), (511, "Network Authentication Required")]

/-- The number and its phrase. -/
def text (c : StatusCode) : String :=
  toString c.value ++ " " ++ (phrases.lookup c.value).getD "<unknown status code>"

def isSuccess (c : StatusCode) : Bool := c.value / 100 == 2

/-- The request should not have been made as it was. -/
def isRequestFault (c : StatusCode) : Bool := c.value / 100 == 4

def isPeerFault (c : StatusCode) : Bool := c.value / 100 == 5

/-- Does the code send the request on to another address? -/
def isRedirect (c : StatusCode) : Bool := [301, 302, 303, 307, 308].contains c.value

end StatusCode

end Courier.Web
