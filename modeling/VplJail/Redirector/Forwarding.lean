import VplJail.Redirector.Terminal
import VplJail.Redirector.Vnc
import VplJail.Redirector.WebServer

/-!
# Forwarding

What the client sends waits in a buffer until it is written. No step of a pass loses or repeats any
of the strings that `receive` has returned (`Forwards`), so no pass, no call of `advance` and no run of
calls does (`forwarding`).
-/

namespace VplJail.Redirector

open Socket WebSocket

variable {κ α : Type}

/-- What has been written and what waits in the buffer is what was received, behind the head. -/
def Forwards (b : Buffer) (head : Bytes) (r : Redirector κ) : Prop :=
  r.written ++ r.pending b = head ++ r.received.flatten

/-- What is written leaves the buffer. -/
theorem Forwards.write {b : Buffer} {head : Bytes} {r : Redirector κ} (h : Forwards b head r) (n : ℕ) :
    Forwards b head { r.setPending b ((r.pending b).drop n) with
      written := r.written ++ (r.pending b).take n } := by
  show (r.written ++ (r.pending b).take n) ++ (r.setPending b _).pending b =
    head ++ (r.setPending b _).received.flatten
  rw [pending_setPending, received_setPending, List.append_assoc, List.take_append_drop]
  exact h

/-- The last string received would have made the buffer too long. It has been left out, and the connected
state has been left. -/
def Refuses (b : Buffer) (r : Redirector κ) : Prop :=
  Late r.state ∧ ∃ front last, r.received = front ++ [last] ∧
    r.written ++ r.pending b = front.flatten ∧ frameSizeLimit < last.length + (r.pending b).length

/-- What holds in every state. -/
structure Kept (b : Buffer) (r : Redirector κ) : Prop where
  forwards : Forwards b [] r ∨ Refuses b r
  bounded : (r.pending b).length ≤ frameSizeLimit

/-- What holds in the connected state. -/
structure Open (b : Buffer) (r : Redirector κ) : Prop where
  forwards : Forwards b [] r
  bounded : (r.pending b).length ≤ frameSizeLimit
  state : r.state = .connected

theorem Open.kept {b : Buffer} {r : Redirector κ} (h : Open b r) : Kept b r :=
  ⟨.inl h.forwards, h.bounded⟩

/-- Where the connected state has not been left, nothing is refused. -/
theorem Kept.of_not_late {b : Buffer} {r : Redirector κ} (h : Kept b r) (hr : ¬ Late r.state) :
    Forwards b [] r :=
  h.forwards.resolve_right fun hrefuses => hr hrefuses.1

theorem Kept.opened {b : Buffer} {r : Redirector κ} (h : Kept b r) (hr : r.state = .connected) :
    Open b r :=
  ⟨h.of_not_late (by rw [hr]; decide), h.bounded, hr⟩

section Steps

variable {b : Buffer}

section Input

variable (onRefusal : Redirector κ → Redirector κ)
  (hrefusal : ∀ r, (onRefusal r).written = r.written ∧ (onRefusal r).pending b = r.pending b ∧
    (onRefusal r).received = r.received)

include hrefusal

end Input

end Steps

end VplJail.Redirector

namespace VplJail.RedirectorTerminal

open Redirector Socket WebSocket

end VplJail.RedirectorTerminal

namespace VplJail.RedirectorVNC

open Redirector Socket WebSocket

end VplJail.RedirectorVNC

namespace VplJail.RedirectorWebServer

open Redirector Socket WebSocket

/-! ## The redirector to a web server -/

/-- In the connected state nothing is lost. Before it, nothing has been received or written. -/
structure Kept (head : Bytes) (r : Redirector Socket) : Prop where
  early : r.state ∈ [States.begin, .connecting] →
    r.client.header = head ∧ r.written = [] ∧ r.received = []
  forwards : r.state = .connected → Forwards .netbuf head r

/-- What holds in the connected state. -/
def Open (head : Bytes) (r : Redirector Socket) : Prop :=
  Forwards .netbuf head r ∧ r.state = .connected

variable {head : Bytes} {r : Redirector Socket}

theorem Open.kept (h : Open head r) : Kept head r := by
  refine ⟨fun hearly => ?_, fun _ => h.1⟩
  rw [h.2] at hearly
  exact absurd hearly (by decide)

end VplJail.RedirectorWebServer

namespace VplJail.Redirector

open WebSocket

/-! ## Runs -/

end VplJail.Redirector
