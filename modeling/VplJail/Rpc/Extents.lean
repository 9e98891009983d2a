import VplJail.Rpc.ParseNode

/-!
# Extents

Where the nodes of a parse tree stand in the text: each one in its parent, and behind the siblings
that come before it.
-/

namespace VplJail.Rpc

namespace ParseNode

/-- The end of a node's text. -/
def stop (t : ParseNode) : ℕ :=
  t.offset + t.len

@[simp] theorem offset_mk (tag : Bytes) (offset len : ℕ) (children : List ParseNode) :
    (mk tag offset len children).offset = offset := rfl

@[simp] theorem stop_mk (tag : Bytes) (offset len : ℕ) (children : List ParseNode) :
    (mk tag offset len children).stop = offset + len := rfl

/-- The tree stands between two places of the text, and every node of it in its parent behind its
older siblings. -/
inductive Placed : ℕ → ℕ → ParseNode → Prop
  | mk {low high offset len : ℕ} (tag : Bytes) {children : List ParseNode} (hlow : low ≤ offset)
      (hhigh : offset + len ≤ high) (hchildren : ∀ c ∈ children, Placed offset (offset + len) c)
      (horder : children.Pairwise fun c c' => c.stop ≤ c'.offset) :
      Placed low high (.mk tag offset len children)

variable {low high : ℕ} {t : ParseNode}

theorem Placed.bounds (h : Placed low high t) : low ≤ t.offset ∧ t.stop ≤ high := by
  obtain ⟨tag, hlow, hhigh, -, -⟩ := h
  exact ⟨hlow, hhigh⟩

theorem Placed.mono {low' high' : ℕ} (h : Placed low high t) (hlow : low' ≤ low)
    (hhigh : high ≤ high') : Placed low' high' t := by
  obtain ⟨tag, hlow', hhigh', hchildren, horder⟩ := h
  exact .mk tag (hlow.trans hlow') (hhigh'.trans hhigh) hchildren horder

/-- The tag says nothing about the place. -/
theorem Placed.setTag (h : Placed low high t) (tag : Bytes) : Placed low high (t.setTag tag) := by
  obtain ⟨tag', hlow, hhigh, hchildren, horder⟩ := h
  exact .mk tag hlow hhigh hchildren horder

/-- A row of siblings between two places. -/
structure Row (low high : ℕ) (ts : List ParseNode) : Prop where
  placed : ∀ t ∈ ts, Placed low high t
  order : ts.Pairwise fun t t' => t.stop ≤ t'.offset

theorem Row.nil (low high : ℕ) : Row low high [] := ⟨nofun, .nil⟩

/-- One more sibling in front. -/
theorem Row.cons {middle next : ℕ} {ts : List ParseNode} (h : Placed low middle t)
    (hts : Row next high ts) (hnext : middle ≤ next) (hhigh : next ≤ high) :
    Row low high (t :: ts) := by
  have hbounds := h.bounds
  have hlow : low ≤ next := by
    have : t.offset ≤ t.stop := Nat.le_add_right _ _
    omega
  refine ⟨List.forall_mem_cons.mpr ⟨h.mono le_rfl (hnext.trans hhigh), ?_⟩, ?_⟩
  · exact fun t' ht' => (hts.placed t' ht').mono hlow le_rfl
  · refine List.pairwise_cons.mpr ⟨fun t' ht' => ?_, hts.order⟩
    exact hbounds.2.trans (hnext.trans (hts.placed t' ht').bounds.1)

/-- A node around a row. -/
theorem Row.mk_placed {offset len : ℕ} {ts : List ParseNode} (h : Row offset (offset + len) ts)
    (tag : Bytes) (hlow : low ≤ offset) (hhigh : offset + len ≤ high) :
    Placed low high (.mk tag offset len ts) :=
  .mk tag hlow hhigh h.placed h.order

/-- A node of a tree. -/
inductive Mem : ParseNode → ParseNode → Prop
  | refl (t : ParseNode) : Mem t t
  | child {t c root : ParseNode} (hc : c ∈ root.children) (h : Mem t c) : Mem t root

/-- Every node of a tree is placed where the tree is. -/
theorem Placed.of_mem {root : ParseNode} (h : Placed low high root) (ht : Mem t root) :
    Placed low high t := by
  induction ht generalizing low high with
  | refl => exact h
  | child hc hmem ih =>
    obtain ⟨tag, hlow, hhigh, hchildren, horder⟩ := h
    exact (ih (hchildren _ hc)).mono hlow hhigh

end ParseNode

end VplJail.Rpc
