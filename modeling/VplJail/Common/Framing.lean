import Mathlib.Data.List.Basic

/-!
# Framing a stream that arrives in chunks

A receiver keeps a buffer of symbols and takes units off its front. `Framing` is such a receiver
whose answer about a buffer is final: more symbols behind the buffer change neither the unit found
nor the decision to stop. `feed_eq_drain` shows that the events of a run are then those of draining
the whole stream at once, so no division of the stream into chunks can be told from another one.
-/

namespace VplJail

/-- What a receiver in state `σ` does with a buffer: wait for more symbols, take a unit off the
front and emit events, or emit events and stop for good. -/
inductive Progress (σ α ε : Type*)
  | wait
  | unit (events : List ε) (state : σ) (rest : List α)
  | halt (events : List ε)

/-- A receiver whose answers do not depend on what follows in the buffer. -/
structure Framing (σ α ε : Type*) where
  next : σ → List α → Progress σ α ε
  next_append_unit : ∀ {s buf es s' rest} (more : List α), next s buf = .unit es s' rest →
    next s (buf ++ more) = .unit es s' (rest ++ more)
  next_append_halt : ∀ {s buf es} (more : List α), next s buf = .halt es →
    next s (buf ++ more) = .halt es
  length_rest_lt : ∀ {s buf es s' rest}, next s buf = .unit es s' rest →
    rest.length < buf.length

namespace Framing

variable {σ α ε : Type*} (F : Framing σ α ε)

/-- Take units until no complete one is left: the events, and the state and buffer reached unless
the receiver has stopped. -/
def drain (s : σ) (buf : List α) : List ε × Option (σ × List α) :=
  match h : F.next s buf with
  | .wait => ([], some (s, buf))
  | .unit es s' rest =>
      have : rest.length < buf.length := F.length_rest_lt h
      (es ++ (drain s' rest).1, (drain s' rest).2)
  | .halt es => (es, none)
termination_by buf.length

/-- Call the receiver once for each chunk, then until no complete unit is left. A call appends the
chunk to the buffer and takes at most one unit, so that an empty chunk is a call without input. -/
def feed (s : σ) (buf : List α) : List (List α) → List ε × Option (σ × List α)
  | [] => F.drain s buf
  | chunk :: chunks =>
      match F.next s (buf ++ chunk) with
      | .wait => feed s (buf ++ chunk) chunks
      | .unit es s' rest => (es ++ (feed s' rest chunks).1, (feed s' rest chunks).2)
      | .halt es => (es, none)

variable {F} {s s' : σ} {buf rest : List α} {es : List ε}

theorem drain_of_wait (h : F.next s buf = .wait) : F.drain s buf = ([], some (s, buf)) := by
  rw [drain]
  split <;> simp_all

theorem drain_of_unit (h : F.next s buf = .unit es s' rest) :
    F.drain s buf = (es ++ (F.drain s' rest).1, (F.drain s' rest).2) := by
  rw [drain]
  split <;> simp_all

theorem drain_of_halt (h : F.next s buf = .halt es) : F.drain s buf = (es, none) := by
  rw [drain]
  split <;> simp_all

/-- The events of a run are those of draining the whole stream. -/
theorem feed_eq_drain (s : σ) (buf : List α) (chunks : List (List α)) :
    F.feed s buf chunks = F.drain s (buf ++ chunks.flatten) := by
  induction chunks generalizing s buf with
  | nil => simp [feed]
  | cons chunk chunks ih =>
      rw [List.flatten_cons, ← List.append_assoc, feed]
      cases hn : F.next s (buf ++ chunk) with
      | wait => exact ih s (buf ++ chunk)
      | unit es s' rest =>
          rw [drain_of_unit (F.next_append_unit _ hn)]
          simp only [ih s' rest]
      | halt es => rw [drain_of_halt (F.next_append_halt _ hn)]

/-- Two divisions of one stream give the same run. -/
theorem feed_congr (s : σ) (buf : List α) {chunks chunks' : List (List α)}
    (h : chunks.flatten = chunks'.flatten) : F.feed s buf chunks = F.feed s buf chunks' := by
  rw [feed_eq_drain, feed_eq_drain, h]

end Framing

end VplJail
