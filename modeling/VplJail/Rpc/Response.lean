import VplJail.Common.Bytes

/-!
# Replies

The replies of `rpc.h` as the members that they are to carry, in their order. How they are written
is in `VplJail.Rpc.JsonRpc` and `VplJail.Rpc.XmlRpc`.
-/

namespace VplJail.Rpc

/-- The value of a member. -/
inductive MemberValue
  | text (value : Bytes)
  | number (value : Int64)

/-- A call of one of the reply builders. -/
inductive Response
  | available (status : Bytes) (load maxtime : Int32) (maxfilesize maxmemory : Int64)
      (maxprocesses secureport : Int32)
  | request (adminticket monitorticket executionticket : Bytes) (port secuport : Int32)
  | directRun (homepath adminticket executionticket : Bytes) (port secuport : Int32)
  | getResult (compilation execution : Bytes) (executed interactive : Bool)
  | update (ok : Bool)
  | running (b : Bool)
  | stop

/-- An `int` as a value. -/
def intValue (n : Int32) : MemberValue :=
  .number n.toInt64

/-- A condition as a value. -/
def boolValue (b : Bool) : MemberValue :=
  .number (if b then 1 else 0)

/-- The members of a reply. -/
def Response.members : Response → List (Bytes × MemberValue)
  | available status load maxtime maxfilesize maxmemory maxprocesses secureport =>
      [(ascii "status", .text status), (ascii "load", intValue load),
        (ascii "maxtime", intValue maxtime), (ascii "maxfilesize", .number maxfilesize),
        (ascii "maxmemory", .number maxmemory), (ascii "maxprocesses", intValue maxprocesses),
        (ascii "secureport", intValue secureport)]
  | request adminticket monitorticket executionticket port secuport =>
      [(ascii "adminticket", .text adminticket), (ascii "monitorticket", .text monitorticket),
        (ascii "executionticket", .text executionticket), (ascii "port", intValue port),
        (ascii "secureport", intValue secuport)]
  | directRun homepath adminticket executionticket port secuport =>
      [(ascii "homepath", .text homepath), (ascii "adminticket", .text adminticket),
        (ascii "executionticket", .text executionticket), (ascii "port", intValue port),
        (ascii "secureport", intValue secuport)]
  | getResult compilation execution executed interactive =>
      [(ascii "compilation", .text compilation), (ascii "execution", .text execution),
        (ascii "executed", boolValue executed), (ascii "interactive", boolValue interactive)]
  | update ok => [(ascii "update", boolValue ok)]
  | running b => [(ascii "running", boolValue b)]
  | stop => [(ascii "stop", .number 1)]

/-- The names of the members are plain letters. -/
theorem Response.isLetter_of_mem_name {reply : Response} {m : Bytes × MemberValue}
    (h : m ∈ reply.members) {b : UInt8} (hb : b ∈ m.1) : 97 ≤ b ∧ b ≤ 122 := by
  revert m b
  suffices hall : ∀ m ∈ reply.members, ∀ b ∈ m.1, 97 ≤ b ∧ b ≤ 122 from
    fun {m} h {b} hb => hall m h b hb
  cases reply <;> simp only [members, List.forall_mem_cons] <;> decide +kernel

end VplJail.Rpc
