import SpriteStage.Proofs.Refusals
/-!
# Around a graft

An edit of a program puts some blocks in the place of one, and around that place nothing moves. If
a second edit can make the former block out of the blocks in its place, then it finds the place
again and puts the whole program back.
-/
namespace SpriteStage

variable {α : Type}

def Block.entry (b : Block α) : String × String × Fields α := (b.id, b.typeId, b.inputs)

namespace Program

/-- The listing of a program: all blocks in pre-order, each without those inside it. -/
def entries (p : Program α) : List (String × String × Fields α) := (preorder p).map Block.entry

theorem entries_cons (b : Block α) (rest : Program α) :
    entries (b :: rest) = b.entry :: entries b.children ++ entries rest := by
  simp [entries, preorder_cons]

theorem entries_append (p q : Program α) : entries (p ++ q) = entries p ++ entries q := by
  simp [entries, preorder_append]

private theorem ids_eq_entries (p : Program α) : ids p = (entries p).map (·.1) := by
  rw [ids, entries, List.map_map]
  rfl

theorem find?_append (p q : Program α) (name : String) : find? (p ++ q) name = (find? p name).or (find? q name) := by
  rw [find?, preorder_append, List.find?_append]
  rfl

theorem find?_of_absent {p : Program α} {name : String} (h : name ∉ ids p) : find? p name = none := by
  rwa [← Option.not_isSome_iff_eq_none, isSome_find?]

/-! ## Splices -/

private theorem splice_of_absent {p : Program α} {name : String} (h : name ∉ ids p)
    (g : Block α → List (Block α)) :
    splice name g p = none := by
  rcases (splice_cases name g).2 p with ⟨hnone, -⟩ | ⟨x, q, -, hfound, -⟩
  · exact hnone
  · rw [find?_of_absent h] at hfound
    cases hfound

theorem splice_cons_here {b : Block α} {name : String} (h : b.id = name) (g : Block α → List (Block α))
    (rest : Program α) : splice name g (b :: rest) = some (g b ++ rest) := by
  rw [splice, if_pos h]

private theorem splice_append {p p' : Program α} {name : String} {g : Block α → List (Block α)}
    (h : splice name g p = some p') (rest : Program α) : splice name g (p ++ rest) = some (p' ++ rest) := by
  induction p generalizing p' with
  | nil => cases h
  | cons b p ih =>
    rw [splice] at h
    rw [List.cons_append, splice]
    by_cases hid : b.id = name
    · rw [if_pos hid] at h ⊢
      cases h
      rw [List.append_assoc]
    · rw [if_neg hid] at h ⊢
      cases hb : Block.splice name g b with
      | some b' =>
        rw [hb] at h
        cases h
        rfl
      | none =>
        rw [hb] at h
        obtain ⟨p'', hp, rfl⟩ := Option.map_eq_some_iff.mp h
        simp only [ih hp, Option.map_some, List.cons_append]

theorem splice_cons_later {b : Block α} {name : String} (h : name ∉ ids [b]) (g : Block α → List (Block α))
    (rest : Program α) : splice name g (b :: rest) = (splice name g rest).map (b :: ·) := by
  obtain ⟨hid, hinside⟩ : name ≠ b.id ∧ name ∉ ids b.children := by simpa [ids_cons, ids_nil] using h
  have hb : Block.splice name g b = none := by
    obtain ⟨i, typeId, inputs, children⟩ := b
    rw [Block.splice, splice_of_absent hinside]
    rfl
  rw [splice, if_neg (Ne.symm hid), hb]

theorem splice_cons_inside {b : Block α} {name : String} (hid : name ≠ b.id) {g : Block α → List (Block α)}
    {cs : Program α} (h : splice name g b.children = some cs) (rest : Program α) :
    splice name g (b :: rest) = some ({ b with children := cs } :: rest) := by
  have hb : Block.splice name g b = some { b with children := cs } := by
    obtain ⟨i, typeId, inputs, children⟩ := b
    rw [Block.splice, h]
    rfl
  rw [splice, if_neg (Ne.symm hid), hb]

/-! ## Depths -/

private theorem copyDepth_append (p q : Program α) : copyDepth (p ++ q) = max (copyDepth p) (copyDepth q) := by
  induction p with
  | nil => rw [List.nil_append, copyDepth, Nat.zero_max]
  | cons b p ih => rw [List.cons_append, copyDepth, copyDepth, ih, Nat.max_assoc]

theorem copyDepth_perm {p q : Program α} (h : p.Perm q) : copyDepth p = copyDepth q := by
  induction h with
  | nil => rfl
  | cons b _ ih => rw [copyDepth, copyDepth, ih]
  | swap b c p => simp only [copyDepth, Nat.max_left_comm]
  | trans _ _ ih ih' => exact ih.trans ih'

/-! ## Grafts -/

namespace Grafts

variable {f : Block α → List (Block α)} {x : Block α} {p q : Program α}

theorem listing (h : Grafts f x p q) : ∃ before after,
    entries p = before ++ entries [x] ++ after ∧ entries q = before ++ entries (f x) ++ after := by
  induction h with
  | here rest =>
    refine ⟨[], entries rest, ?_, ?_⟩
    · rw [List.nil_append, ← entries_append, List.singleton_append]
    · rw [List.nil_append, entries_append]
  | @inside b cs rest _ ih =>
    obtain ⟨before, after, hp, hq⟩ := ih
    refine ⟨b.entry :: before, after ++ entries rest, ?_, ?_⟩
    · rw [entries_cons, hp]
      simp only [List.cons_append, List.append_assoc]
    · rw [entries_cons, hq]
      simp only [List.cons_append, List.append_assoc]
      rfl
  | later b _ ih =>
    obtain ⟨before, after, hp, hq⟩ := ih
    refine ⟨entries [b] ++ before, after, ?_, ?_⟩
    · rw [← List.singleton_append, entries_append, hp]
      simp only [List.append_assoc]
    · rw [← List.singleton_append, entries_append, hq]
      simp only [List.append_assoc]

theorem count_le (h : Grafts f x p q) (name : String) : (ids [x]).count name ≤ (ids p).count name := by
  obtain ⟨before, after, hp, -⟩ := h.listing
  rw [ids_eq_entries p, hp, List.map_append, List.map_append, ← ids_eq_entries, List.count_append, List.count_append]
  omega

theorem ids_subset (h : Grafts f x p q) : ids [x] ⊆ ids p := fun name hname =>
  List.count_pos_iff.mp (Nat.lt_of_lt_of_le (List.count_pos_iff.mpr hname) (h.count_le name))

/-- What is found under a name is found as before, unless the place is somewhere inside it: then the blocks inside
are those with the graft, and all else is the same. -/
theorem find? (h : Grafts f x p q) {name : String} (hx : Program.find? (f x) name = Program.find? [x] name) :
    Program.find? q name = Program.find? p name ∨ ∃ b cs, Program.find? p name = some b ∧
      Program.find? q name = some { b with children := cs } ∧ Grafts f x b.children cs := by
  induction h with
  | here rest => exact .inl (by rw [find?_append, hx, ← find?_append]; rfl)
  | @inside b cs rest graft ih =>
    rw [find?_cons, find?_cons]
    by_cases hid : b.id = name
    · rw [if_pos hid, if_pos hid]
      exact .inr ⟨b, cs, rfl, rfl, graft⟩
    · rw [if_neg hid, if_neg hid]
      rcases ih with hsame | ⟨b', cs', hb, hb', hgraft⟩
      · exact .inl (congrArg (Option.or · _) hsame)
      · exact .inr ⟨b', cs', by rw [hb, Option.some_or], by rw [hb', Option.some_or], hgraft⟩
  | later b _ ih =>
    rw [find?_cons, find?_cons]
    by_cases hid : b.id = name
    · exact .inl (by rw [if_pos hid, if_pos hid])
    · rw [if_neg hid, if_neg hid]
      cases Program.find? b.children name with
      | some b' => exact .inl rfl
      | none => exact ih

/-- A second edit, at a name that is new, finds what has come in the place of the block and can put it back. -/
theorem splice_back (h : Grafts f x p q) {name : String} (hnew : name ∉ ids p) {g : Block α → List (Block α)}
    (hx : splice name g (f x) = some [x]) : splice name g q = some p := by
  induction h with
  | here rest => exact splice_append hx rest
  | @inside b cs rest _ ih =>
    obtain ⟨hid, hinside, -⟩ : name ≠ b.id ∧ name ∉ ids b.children ∧ name ∉ ids rest := by
      simpa [ids_cons] using hnew
    obtain ⟨i, typeId, inputs, children⟩ := b
    exact splice_cons_inside (b := ⟨i, typeId, inputs, cs⟩) hid (ih hinside) rest
  | later b _ ih =>
    rw [← List.singleton_append, ids_append, List.mem_append, not_or] at hnew
    rw [splice_cons_later hnew.1, ih hnew.2, Option.map_some]

theorem copyDepth (h : Grafts f x p q) (hx : Program.copyDepth (f x) = Program.copyDepth [x]) :
    Program.copyDepth q = Program.copyDepth p := by
  induction h with
  | here rest => rw [copyDepth_append, hx, ← copyDepth_append, List.singleton_append]
  | @inside b cs rest _ ih =>
    obtain ⟨i, typeId, inputs, children⟩ := b
    simp only [Program.copyDepth, Block.copyDepth, ih]
  | later b _ ih => rw [Program.copyDepth, Program.copyDepth, ih]

end Grafts

end Program

/-! ## Copies -/

mutual

/-- A block with all names taken off. -/
def Block.nameless : Block α → Block α
  | ⟨_, typeId, inputs, children⟩ => ⟨"", typeId, inputs, Program.nameless children⟩

def Program.nameless : List (Block α) → List (Block α)
  | [] => []
  | b :: rest => Block.nameless b :: Program.nameless rest

end

/-- A copy differs from the original in the names only, of which it takes one for each block. -/
theorem renamed_alike :
    (∀ (b : Block α) n, (b.renamed n).1.nameless = b.nameless ∧ (b.renamed n).2 = n + b.size) ∧
    ∀ (p : Program α) n, Program.nameless (Program.renamed n p).1 = Program.nameless p ∧
      (Program.renamed n p).2 = n + Program.size p := by
  apply Block.induction
  case block =>
    intro id typeId inputs children ih n
    obtain ⟨halike, hnext⟩ := ih (n + 1)
    rw [Block.renamed]
    dsimp only at *
    refine ⟨?_, ?_⟩
    · rw [Block.nameless, Block.nameless, halike]
    · rw [hnext, Block.size]
      omega
  case nil =>
    intro n
    rw [Program.renamed]
    exact ⟨rfl, rfl⟩
  case cons =>
    intro b rest hb hrest n
    obtain ⟨halike, hnext⟩ := hb n
    obtain ⟨halike', hnext'⟩ := hrest (b.renamed n).2
    rw [Program.renamed]
    dsimp only at *
    refine ⟨?_, ?_⟩
    · rw [Program.nameless, Program.nameless, halike, halike']
    · rw [hnext', hnext, Program.size, Nat.add_assoc]

theorem copyDepth_nameless :
    (∀ b : Block α, b.nameless.copyDepth = b.copyDepth) ∧
    ∀ p : Program α, Program.copyDepth (Program.nameless p) = Program.copyDepth p := by
  apply Block.induction
  case block =>
    intro id typeId inputs children ih
    rw [Block.nameless, Block.copyDepth, Block.copyDepth, ih]
  case nil => rfl
  case cons =>
    intro b rest hb hrest
    rw [Program.nameless, Program.copyDepth, Program.copyDepth, hb, hrest]

end SpriteStage
