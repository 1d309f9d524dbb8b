import Mathlib.Data.List.Nodup
import Mathlib.Data.List.Perm.Basic
import SpriteStage.Program.Edit
import SpriteStage.Proofs.Conduct
/-!
# Edits of programs

Every edit of a program grafts other blocks in the place of one, adds a block at the end or moves
a top-level one. What counts about it is said once, for all of them: the blocks still fit their
types, and no id is there more often than before, apart from names that were not issued yet.
-/
namespace SpriteStage

variable {α : Type}

namespace Fields

private theorem mem_names_put {fs : Fields α} {name x : String} {v : Value α} :
    x ∈ (fs.put name v).names ↔ x = name ∨ x ∈ fs.names := by
  induction fs with
  | nil => simp [put, names]
  | cons entry rest ih =>
    obtain ⟨n, old⟩ := entry
    simp only [names, put] at ih ⊢
    by_cases h : n = name
    · subst h
      simp
    · simp only [h, if_false, List.map_cons, List.mem_cons, ih]
      tauto

private theorem nodup_names_put {fs : Fields α} (h : fs.names.Nodup) (name : String) (v : Value α) :
    (fs.put name v).names.Nodup := by
  induction fs with
  | nil => simp [put, names]
  | cons entry rest ih =>
    obtain ⟨n, old⟩ := entry
    obtain ⟨hfresh, hrest⟩ := List.nodup_cons.mp h
    by_cases hn : n = name
    · simp only [put, hn, if_true]
      rw [← hn]
      exact List.nodup_cons.mpr ⟨hfresh, hrest⟩
    · simp only [put, hn, if_false]
      refine List.nodup_cons.mpr ⟨?_, ih hrest⟩
      intro hmem
      rcases mem_names_put.mp hmem with heq | hmem
      · exact hn heq
      · exact hfresh hmem

end Fields

/-! ## Blocks that fit their types -/

/-- Fields with the names that a type declares, each once. -/
def BlockType.Takes (t : BlockType α) (fs : Fields α) : Prop :=
  fs.names.Nodup ∧ ∀ name, name ∈ fs.names ↔ name ∈ t.inputs.map (·.name)

/-- A block of a registered type, whose inputs are those that the type declares, and which holds blocks only
if the type is a container. -/
def Block.Fits (c : Catalog α) (b : Block α) : Prop :=
  ∃ t, c.find? b.typeId = some t ∧ t.Takes b.inputs ∧ (b.children ≠ [] → t.isContainer = true)

def Program.Fits (c : Catalog α) (p : Program α) : Prop := ∀ b ∈ Program.preorder p, b.Fits c

namespace Program

theorem preorder_cons (b : Block α) (rest : Program α) :
    preorder (b :: rest) = b :: preorder b.children ++ preorder rest := by
  obtain ⟨id, typeId, inputs, children⟩ := b
  rw [preorder, Block.preorder]

theorem preorder_append (p q : Program α) : preorder (p ++ q) = preorder p ++ preorder q := by
  induction p with
  | nil => rfl
  | cons b rest ih => simp only [List.cons_append, preorder_cons, ih, List.append_assoc]

theorem ids_cons (b : Block α) (rest : Program α) :
    ids (b :: rest) = b.id :: ids b.children ++ ids rest := by
  simp [ids, preorder_cons]

theorem ids_append (p q : Program α) : ids (p ++ q) = ids p ++ ids q := by
  simp [ids, preorder_append]

theorem ids_nil : ids ([] : Program α) = [] := rfl

theorem find?_cons (b : Block α) (rest : Program α) (id : String) :
    find? (b :: rest) id = if b.id = id then some b else (find? b.children id).or (find? rest id) := by
  simp only [find?, preorder_cons, List.cons_append, List.find?_cons, List.find?_append]
  by_cases h : b.id = id
  · simp [h]
  · rw [beq_false_of_ne h, if_neg h]

theorem fits_nil (c : Catalog α) : Fits c ([] : Program α) := by simp [Fits, preorder]

private theorem fits_cons {c : Catalog α} {b : Block α} {rest : Program α} :
    Fits c (b :: rest) ↔ b.Fits c ∧ Fits c b.children ∧ Fits c rest := by
  simp only [Fits, preorder_cons, List.cons_append, List.forall_mem_cons, List.forall_mem_append]

private theorem fits_append {c : Catalog α} {p q : Program α} : Fits c (p ++ q) ↔ Fits c p ∧ Fits c q := by
  simp only [Fits, preorder_append, List.forall_mem_append]

end Program

/-! ## Grafts -/

/-- The second program is the first with `f x` in the place of the block `x`. -/
inductive Program.Grafts (f : Block α → List (Block α)) (x : Block α) : Program α → Program α → Prop where
  | here (rest : Program α) : Grafts f x (x :: rest) (f x ++ rest)
  | inside {b : Block α} {cs : Program α} (rest : Program α) (graft : Grafts f x b.children cs) :
      Grafts f x (b :: rest) ({ b with children := cs } :: rest)
  | later (b : Block α) {rest rest' : Program α} (graft : Grafts f x rest rest') :
      Grafts f x (b :: rest) (b :: rest')

namespace Program

/-- Splicing grafts in the place of the block that is found under the id. -/
theorem splice_cases (id : String) (f : Block α → List (Block α)) :
    (∀ b : Block α,
      (Block.splice id f b = none ∧ find? b.children id = none) ∨
      ∃ x cs, Block.splice id f b = some { b with children := cs } ∧ find? b.children id = some x ∧
        Grafts f x b.children cs) ∧
    ∀ p : Program α,
      (splice id f p = none ∧ find? p id = none) ∨
      ∃ x q, splice id f p = some q ∧ find? p id = some x ∧ Grafts f x p q := by
  apply Block.induction
  case block =>
    intro i typeId inputs children ih
    rcases ih with ⟨hnone, hmissing⟩ | ⟨x, cs, hsome, hfound, hgraft⟩
    · exact .inl ⟨by rw [Block.splice, hnone]; rfl, hmissing⟩
    · exact .inr ⟨x, cs, by rw [Block.splice, hsome]; rfl, hfound, hgraft⟩
  case nil => exact .inl ⟨by rw [splice], rfl⟩
  case cons =>
    intro b rest hb hrest
    rw [splice, find?_cons]
    by_cases hid : b.id = id
    · rw [if_pos hid, if_pos hid]
      exact .inr ⟨b, _, rfl, rfl, .here rest⟩
    · rw [if_neg hid, if_neg hid]
      rcases hb with ⟨hnone, hmissing⟩ | ⟨x, cs, hsome, hfound, hgraft⟩
      · rw [hnone, hmissing, Option.none_or]
        rcases hrest with ⟨hnone', hmissing'⟩ | ⟨x, q, hsome', hfound', hgraft'⟩
        · exact .inl ⟨by rw [hnone']; rfl, hmissing'⟩
        · exact .inr ⟨x, b :: q, by rw [hsome']; rfl, hfound', .later b hgraft'⟩
      · rw [hsome, hfound]
        exact .inr ⟨x, _, rfl, rfl, .inside rest hgraft⟩

theorem edit_eq_ok {p q : Program α} {id : String} {f : Block α → List (Block α)}
    (h : p.edit id f = .ok q) : ∃ x, p.locate id = .ok x ∧ Grafts f x p q := by
  unfold edit at h
  rcases (splice_cases id f).2 p with ⟨hnone, -⟩ | ⟨x, q', hsome, hfound, hgraft⟩
  · rw [hnone] at h
    cases h
  · rw [hsome] at h
    cases h
    exact ⟨x, by rw [locate, hfound], hgraft⟩

namespace Grafts

variable {f : Block α → List (Block α)} {x : Block α} {p q : Program α}

theorem count_ids (h : Grafts f x p q) (name : String) :
    (ids q).count name + (ids [x]).count name = (ids p).count name + (ids (f x)).count name := by
  induction h with
  | here rest =>
    simp only [ids_append, ids_cons, ids_nil, List.append_nil, List.count_append]
    omega
  | inside rest _ ih =>
    simp only [ids_cons, List.cons_append, List.count_cons, List.count_append] at ih ⊢
    omega
  | later b _ ih =>
    simp only [ids_cons, List.cons_append, List.count_cons, List.count_append] at ih ⊢
    omega

private theorem ne_nil (h : Grafts f x p q) : p ≠ [] := by
  cases h <;> simp

private theorem fits {c : Catalog α} (h : Grafts f x p q) (hp : Fits c p)
    (hx : x.Fits c → Fits c x.children → Fits c (f x)) : Fits c q := by
  induction h with
  | here rest =>
    obtain ⟨hfits, hchildren, hrest⟩ := fits_cons.mp hp
    exact fits_append.mpr ⟨hx hfits hchildren, hrest⟩
  | inside rest graft ih =>
    obtain ⟨⟨t, ht, htakes, hcontainer⟩, hchildren, hrest⟩ := fits_cons.mp hp
    refine fits_cons.mpr ⟨⟨t, ht, htakes, ?_⟩, ih hchildren, hrest⟩
    intro _
    exact hcontainer graft.ne_nil
  | later b _ ih =>
    obtain ⟨hfits, hchildren, hrest⟩ := fits_cons.mp hp
    exact fits_cons.mpr ⟨hfits, hchildren, ih hrest⟩

end Grafts

end Program

/-! ## Names -/

theorem blockName_injective : Function.Injective blockName := by
  intro i j h
  have hchars : ('b' :: (toString i).toList) = 'b' :: (toString j).toList := by
    simpa [blockName] using congrArg String.toList h
  have hdigits : Nat.toDigits 10 i = Nat.toDigits 10 j := by
    simpa [Nat.toString_eq_ofList_toDigits] using (List.cons.inj hchars).2
  rw [← Nat.ofDigitChars_ten_toDigits (n := i), hdigits, Nat.ofDigitChars_ten_toDigits]

/-- The names that are issued while the next number goes from `n` to `m`. -/
def issued (n m : Nat) : List String := (List.range' n (m - n)).map blockName

theorem issued_self (n : Nat) : issued n n = [] := by simp [issued]

theorem issued_succ (n : Nat) : issued n (n + 1) = [blockName n] := by simp [issued]

theorem issued_append {n m k : Nat} (h : n ≤ m) (h' : m ≤ k) : issued n m ++ issued m k = issued n k := by
  have hlength : m - n + (k - m) = k - n := by omega
  have hstart : n + (m - n) = m := by omega
  rw [issued, issued, issued, ← List.map_append, ← hlength, ← List.range'_append_1, hstart]

theorem mem_issued {n m : Nat} {name : String} :
    name ∈ issued n m ↔ ∃ i, n ≤ i ∧ i < m ∧ blockName i = name := by
  simp only [issued, List.mem_map, List.mem_range'_1]
  constructor
  · rintro ⟨i, ⟨hle, hlt⟩, rfl⟩
    exact ⟨i, hle, by omega, rfl⟩
  · rintro ⟨i, hle, hlt, rfl⟩
    exact ⟨i, ⟨hle, by omega⟩, rfl⟩

theorem issued_nodup (n m : Nat) : (issued n m).Nodup :=
  List.Nodup.map blockName_injective List.nodup_range'

/-- A copy gets the next names in pre-order, and its blocks fit as those of the original do. -/
theorem renamed_spec (c : Catalog α) :
    (∀ (b : Block α) n, n ≤ (b.renamed n).2 ∧
      Program.ids [(b.renamed n).1] = issued n (b.renamed n).2 ∧
      (Program.Fits c [b] → Program.Fits c [(b.renamed n).1])) ∧
    ∀ (p : Program α) n, n ≤ (Program.renamed n p).2 ∧
      Program.ids (Program.renamed n p).1 = issued n (Program.renamed n p).2 ∧
      (Program.Fits c p → Program.Fits c (Program.renamed n p).1) ∧
      ((Program.renamed n p).1 = [] ↔ p = []) := by
  apply Block.induction
  case block =>
    intro id typeId inputs children ih n
    obtain ⟨hle, hids, hfits, hnil⟩ := ih (n + 1)
    rw [Block.renamed]
    dsimp only at hle hids hfits hnil ⊢
    refine ⟨by omega, ?_, ?_⟩
    · rw [Program.ids_cons, hids, Program.ids_nil, List.append_nil,
        ← issued_append (by omega : n ≤ n + 1) hle, issued_succ]
      rfl
    · intro h
      obtain ⟨⟨t, ht, htakes, hcontainer⟩, hchildren, -⟩ := Program.fits_cons.mp h
      refine Program.fits_cons.mpr ⟨⟨t, ht, htakes, ?_⟩, hfits hchildren, Program.fits_nil c⟩
      intro hsome
      exact hcontainer fun hnone => hsome (hnil.mpr hnone)
  case nil =>
    intro n
    rw [Program.renamed]
    exact ⟨Nat.le_refl n, (issued_self n).symm, id, Iff.rfl⟩
  case cons =>
    intro b rest hb hrest n
    obtain ⟨hle, hids, hfits⟩ := hb n
    obtain ⟨hle', hids', hfits', -⟩ := hrest (b.renamed n).2
    rw [Program.renamed]
    dsimp only
    refine ⟨Nat.le_trans hle hle', ?_, ?_, by simp⟩
    · rw [← List.singleton_append, Program.ids_append, hids, hids', issued_append hle hle']
    · intro h
      rw [← List.singleton_append, Program.fits_append] at h ⊢
      exact ⟨hfits h.1, hfits' h.2⟩

/-! ## Revisions -/

/-- What an edit does to a program, while the next number for names goes from `n` to `m`. -/
structure Program.Revises (c : Catalog α) (n : Nat) (p : Program α) (m : Nat) (q : Program α) : Prop where
  names : n ≤ m
  fits : Program.Fits c p → Program.Fits c q
  ids : ∀ name, (Program.ids q).count name ≤ (Program.ids p).count name + (issued n m).count name

namespace Program

private theorem Revises.ofGraft {c : Catalog α} {n m : Nat} {p q : Program α} {f : Block α → List (Block α)}
    {x : Block α} (h : Grafts f x p q) (hle : n ≤ m)
    (hfits : x.Fits c → Program.Fits c x.children → Program.Fits c (f x))
    (hids : ∀ name, (Program.ids (f x)).count name ≤
      (Program.ids [x]).count name + (issued n m).count name) : Revises c n p m q where
  names := hle
  fits hp := h.fits hp hfits
  ids name := by
    have hcount := h.count_ids name
    have hless := hids name
    omega

private theorem lookup_eq_ok {c : Catalog α} {id : String} {t : BlockType α} (h : c.lookup id = .ok t) :
    c.find? id = some t := by
  unfold Catalog.lookup at h
  split at h
  · rename_i t' ht'
    cases h
    exact ht'
  · cases h

end Program

private theorem BlockType.Takes.put {t : BlockType α} {fs : Fields α} (h : t.Takes fs) {name : String}
    {spec : InputSpec α} (hspec : t.input? name = some spec) (v : Value α) : t.Takes (fs.put name v) := by
  have hdeclared : name ∈ t.inputs.map (·.name) := by
    have hname : spec.name = name := by simpa using List.find?_some hspec
    exact List.mem_map.mpr ⟨spec, List.mem_of_find?_eq_some hspec, hname⟩
  refine ⟨Fields.nodup_names_put h.1 name v, fun x => ?_⟩
  rw [Fields.mem_names_put, h.2]
  constructor
  · rintro (rfl | hx)
    · exact hdeclared
    · exact hx
  · exact .inr

private theorem BlockType.takes_defaults (t : BlockType α) : t.Takes t.defaults := by
  have hput : ∀ (specs : List (InputSpec α)) (done : Fields α), done.names.Nodup →
      (specs.foldl (fun fs s => fs.put s.name s.fallback) done).names.Nodup ∧
      ∀ name, name ∈ (specs.foldl (fun fs s => fs.put s.name s.fallback) done).names ↔
        name ∈ specs.map (·.name) ∨ name ∈ done.names := by
    intro specs
    induction specs with
    | nil => exact fun done h => ⟨h, fun name => by simp⟩
    | cons spec specs ih =>
      intro done hdone
      obtain ⟨hnodup, hnames⟩ := ih _ (Fields.nodup_names_put hdone spec.name spec.fallback)
      refine ⟨hnodup, fun name => ?_⟩
      rw [List.foldl_cons, hnames, Fields.mem_names_put, List.map_cons, List.mem_cons]
      tauto
  obtain ⟨hnodup, hnames⟩ := hput t.inputs [] .nil
  exact ⟨hnodup, fun name => (hnames name).trans (by simp [Fields.names])⟩

private theorem BlockType.Takes.fill {t : BlockType α} {raw done filled : Fields α} (h : t.Takes done)
    (hfill : t.fill raw done = .ok filled) : t.Takes filled := by
  induction raw generalizing done with
  | nil =>
    cases hfill
    exact h
  | cons entry raw ih =>
    obtain ⟨name, value⟩ := entry
    rw [BlockType.fill] at hfill
    split at hfill
    · cases hfill
    · rename_i spec hspec
      exact ih (h.put hspec value) hfill

theorem Catalog.newBlock_fits {c : Catalog α} {id typeId : String} {inputs : Fields α} {b : Block α}
    (h : c.newBlock id typeId inputs = .ok b) : b.id = id ∧ b.children = [] ∧ b.Fits c := by
  obtain ⟨t, ht, h⟩ := bind_eq_ok h
  obtain ⟨filled, hfilled, h⟩ := bind_eq_ok h
  cases h
  exact ⟨rfl, rfl, t, Program.lookup_eq_ok ht, t.takes_defaults.fill hfilled, fun hsome => absurd rfl hsome⟩

namespace Program

theorem locate_unique {p : Program α} {id : String} {x y : Block α} (hx : p.locate id = .ok x)
    (hy : p.locate id = .ok y) : x = y := by
  rw [hx] at hy
  exact Except.ok.inj hy

theorem append_revises {c : Catalog α} {n : Nat} {p q : Program α} {b : Block α} {parent : Option String}
    (hid : b.id = blockName n) (hleaf : b.children = []) (hb : b.Fits c)
    (h : p.append c b parent = .ok q) : Revises c n p (n + 1) q := by
  have hone : ids [b] = issued n (n + 1) := by
    rw [ids_cons, hid, hleaf, issued_succ]
    rfl
  have hfits : Fits c [b] := fits_cons.mpr ⟨hb, hleaf ▸ fits_nil c, fits_nil c⟩
  cases parent with
  | none =>
    cases h
    refine ⟨Nat.le_succ n, fun hp => fits_append.mpr ⟨hp, hfits⟩, fun name => Nat.le_of_eq ?_⟩
    rw [ids_append, List.count_append, hone]
  | some parent =>
    obtain ⟨holder, hholder, h⟩ := bind_eq_ok h
    obtain ⟨t, ht, h⟩ := bind_eq_ok h
    split at h
    · rename_i hcontainer
      obtain ⟨x, hx, hgraft⟩ := edit_eq_ok h
      cases locate_unique hholder hx
      refine .ofGraft hgraft (Nat.le_succ n) ?_ ?_
      · rintro ⟨t', ht', htakes, -⟩ hchildren
        rw [lookup_eq_ok ht] at ht'
        cases ht'
        exact fits_cons.mpr ⟨⟨t, lookup_eq_ok ht, htakes, fun _ => hcontainer⟩,
          fits_append.mpr ⟨hchildren, hfits⟩, fits_nil c⟩
      · intro name
        simp only [ids_cons holder, ids_cons { holder with children := holder.children ++ [b] },
          ids_append, hone, ids_nil, List.append_nil, List.count_cons, List.count_append]
        omega
    · cases h

theorem remove_revises {c : Catalog α} {n : Nat} {p q : Program α} {id : String} {b : Block α}
    (h : p.remove id = .ok (q, b)) : Revises c n p n q := by
  obtain ⟨x, -, h⟩ := bind_eq_ok h
  obtain ⟨q', hedit, h⟩ := bind_eq_ok h
  cases h
  obtain ⟨y, -, hgraft⟩ := edit_eq_ok hedit
  exact .ofGraft hgraft (Nat.le_refl n) (fun _ _ => fits_nil c) (by simp [ids_nil])

theorem reorder_revises {c : Catalog α} {n : Nat} {p q : Program α} {source target : Int}
    (h : p.reorder source target = .ok q) : Revises c n p n q := by
  have hperm : q.Perm p := by
    unfold reorder at h
    dsimp only at h
    split at h
    · rename_i hbounds
      split at h
      · rename_i b hb
        cases h
        obtain ⟨hlt, rfl⟩ := List.getElem?_eq_some_iff.mp hb
        have htarget : target.toNat ≤ (p.eraseIdx source.toNat).length := by
          rw [List.length_eraseIdx_of_lt hlt]
          omega
        exact (List.perm_insertIdx _ _ htarget).trans (List.getElem_cons_eraseIdx_perm hlt)
      · cases h
    · cases h
  have hpreorder : (preorder q).Perm (preorder p) := by
    have hflat : ∀ r : Program α, preorder r = r.flatMap Block.preorder := by
      intro r
      induction r with
      | nil => rfl
      | cons b rest ih => rw [preorder, ih, List.flatMap_cons]
    rw [hflat, hflat]
    exact hperm.flatMap_right _
  refine ⟨Nat.le_refl n, fun hp b hb => hp b (hpreorder.mem_iff.mp hb), fun name => ?_⟩
  rw [ids, (hpreorder.map _).count_eq, issued_self]
  exact Nat.le_refl _

theorem duplicate_revises {c : Catalog α} {n m : Nat} {p q : Program α} {id : String} {b : Block α}
    (h : p.duplicate id n = .ok (q, b, m)) : Revises c n p m q := by
  obtain ⟨x, hx, h⟩ := bind_eq_ok h
  obtain ⟨q', hedit, h⟩ := bind_eq_ok h
  cases h
  obtain ⟨y, hy, hgraft⟩ := edit_eq_ok hedit
  cases locate_unique hx hy
  obtain ⟨hle, hids, hfits⟩ := (renamed_spec c).1 x n
  refine .ofGraft hgraft hle ?_ ?_
  · intro hx hchildren
    have hboth := hfits (fits_cons.mpr ⟨hx, hchildren, fits_nil c⟩)
    exact fits_cons.mpr ⟨hx, hchildren, hboth⟩
  · intro name
    apply Nat.le_of_eq
    rw [← List.singleton_append, ids_append, List.count_append, hids]

theorem setInput_revises {c : Catalog α} {n : Nat} {p q : Program α} {id name : String} {value : Value α}
    {b : Block α} (h : p.setInput c id name value = .ok (q, b)) : Revises c n p n q := by
  obtain ⟨x, hx, h⟩ := bind_eq_ok h
  obtain ⟨t, ht, h⟩ := bind_eq_ok h
  split at h
  · cases h
  · rename_i spec hspec
    obtain ⟨q', hedit, h⟩ := bind_eq_ok h
    cases h
    obtain ⟨y, hy, hgraft⟩ := edit_eq_ok hedit
    cases locate_unique hx hy
    refine .ofGraft hgraft (Nat.le_refl n) ?_ ?_
    · rintro ⟨t', ht', htakes, hcontainer⟩ hchildren
      rw [lookup_eq_ok ht] at ht'
      cases ht'
      exact fits_cons.mpr ⟨⟨t, lookup_eq_ok ht, htakes.put hspec value, hcontainer⟩, hchildren, fits_nil c⟩
    · intro x
      rw [ids_cons, ids_cons]
      exact Nat.le_add_right _ _

theorem clear_revises (c : Catalog α) (n : Nat) (p : Program α) : Revises c n p n [] :=
  ⟨Nat.le_refl n, fun _ => fits_nil c, by simp [ids_nil]⟩

end Program

end SpriteStage
