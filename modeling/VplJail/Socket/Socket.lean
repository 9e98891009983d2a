import VplJail.Common.Bytes
import VplJail.Util.Exceptions
import Std.Data.TreeMap.Lemmas

/-!
# Sockets

`socket.h`: what a connection keeps of the request head, and its buffers. The descriptor, the address
of the client and the largest data size are left out, as no function modelled here reads them.
-/

namespace VplJail

/-- `JAIL_NET_BUFFER_SIZE`: the most that one read or write moves. -/
def netBufferSize : ℕ := 256 * 1024

/-- `JAIL_HEADERS_SIZE_LIMIT`: the limit for the head of a request. -/
def headersSizeLimit : ℕ := 8 * 1024

/-- `requestTimeoutCode`: the client has been too slow. -/
def requestTimeoutCode : ℕ := 408

/-- `requestEntityTooLargeCode`: the client has sent too much. -/
def requestEntityTooLargeCode : ℕ := 413

/-- A `Socket`, and what its construction makes of it. -/
structure Socket where
  method : Bytes := []
  version : Bytes := []
  protocol : Bytes := []
  URL : Bytes := []
  URLPath : Bytes := []
  queryString : Bytes := []
  headers : Std.TreeMap Bytes Bytes compare := ∅
  cookies : Std.TreeMap Bytes Bytes compare := ∅
  header : Bytes := []
  readBuffer : Bytes := []
  writeBuffer : Bytes := []
  closed : Bool := false
  websocketProtocol : Bool := false

namespace Socket

/-- `Socket::close`: nothing more is read or written. -/
def close (s : Socket) : Socket :=
  { s with closed := true }

/-- `markWebSocketProtocol`: what follows is no HTTP. -/
def markWebSocketProtocol (s : Socket) : Socket :=
  { s with websocketProtocol := true }

end Socket

end VplJail
