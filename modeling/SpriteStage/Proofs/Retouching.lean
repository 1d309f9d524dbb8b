import SpriteStage.Proofs.Editability
import SpriteStage.Proofs.Rendering
/-! # Programs with other inputs -/
namespace SpriteStage

variable {α : Type}

namespace Fields

private theorem put_put (fs : Fields α) (name : String) (v w : Value α) :
    (fs.put name v).put name w = fs.put name w := by
  induction fs with
  | nil => simp [put]
  | cons entry rest ih =>
    obtain ⟨n, u⟩ := entry
    by_cases h : n = name
    · simp [put, h]
    · simp [put, h, ih]

private theorem put_get? {fs : Fields α} {name : String} {v : Value α} (h : fs.get? name = some v) :
    fs.put name v = fs := by
  induction fs with
  | nil => cases h
  | cons entry rest ih =>
    obtain ⟨n, u⟩ := entry
    rw [get?_cons] at h
    by_cases hn : n = name
    · rw [if_pos hn.symm] at h
      cases h
      rw [put, if_pos hn]
    · rw [if_neg (Ne.symm hn)] at h
      rw [put, if_neg hn, ih h]

private theorem put_comm {fs : Fields α} {name other : String} (hne : name ≠ other) (hname : name ∈ fs.names)
    (hother : other ∈ fs.names) (v w : Value α) :
    (fs.put name v).put other w = (fs.put other w).put name v := by
  induction fs with
  | nil => cases hname
  | cons entry rest ih =>
    obtain ⟨n, u⟩ := entry
    by_cases h : n = name
    · subst h
      simp [put, hne]
    · by_cases h' : n = other
      · subst h'
        simp [put, h]
      · have hname' : name ∈ names rest := (List.mem_cons.mp hname).resolve_left (Ne.symm h)
        have hother' : other ∈ names rest := (List.mem_cons.mp hother).resolve_left (Ne.symm h')
        simp [put, h, h', ih hname' hother']

private theorem mem_names_of_get? {fs : Fields α} {name : String} {v : Value α} (h : fs.get? name = some v) :
    name ∈ fs.names := by
  by_contra hnone
  rw [get?_eq_none hnone] at h
  cases h

end Fields

mutual

/-- A block with the inputs of all blocks in it rewritten, for each by its name. -/
def Block.retouch (g : String → Fields α → Fields α) : Block α → Block α
  | ⟨id, typeId, inputs, children⟩ => ⟨id, typeId, g id inputs, Program.retouch g children⟩

def Program.retouch (g : String → Fields α → Fields α) : List (Block α) → List (Block α)
  | [] => []
  | b :: rest => Block.retouch g b :: Program.retouch g rest

end

theorem Block.retouch_eq (g : String → Fields α → Fields α) (b : Block α) :
    b.retouch g = ⟨b.id, b.typeId, g b.id b.inputs, Program.retouch g b.children⟩ := by
  obtain ⟨i, typeId, inputs, children⟩ := b
  rw [Block.retouch]

namespace Program

/-- Induction on a program with its first block taken apart. -/
theorem induction {Q : Program α → Prop} (nil : Q [])
    (cons : ∀ (b : Block α) (rest : Program α), Q b.children → Q rest → Q (b :: rest)) (p : Program α) : Q p :=
  (Block.induction (P := fun b => Q b.children) (fun _ _ _ _ h => h) nil cons).2 p

variable {p : Program α} {g : String → Fields α → Fields α}

theorem retouch_cons (g : String → Fields α → Fields α) (b : Block α) (rest : Program α) :
    retouch g (b :: rest) = ⟨b.id, b.typeId, g b.id b.inputs, retouch g b.children⟩ :: retouch g rest := by
  rw [retouch, Block.retouch_eq]

private theorem retouch_retouch (f g : String → Fields α → Fields α) (p : Program α) :
    retouch g (retouch f p) = retouch (fun i fs => g i (f i fs)) p := by
  induction p using induction with
  | nil => rfl
  | cons b rest hchildren hrest => simp only [retouch_cons, hchildren, hrest]

private theorem retouch_congr {f : String → Fields α → Fields α}
    (h : ∀ b ∈ preorder p, f b.id b.inputs = g b.id b.inputs) : retouch f p = retouch g p := by
  induction p using induction with
  | nil => rfl
  | cons b rest hchildren hrest =>
    rw [preorder_cons, List.cons_append, List.forall_mem_cons, List.forall_mem_append] at h
    rw [retouch_cons, retouch_cons, h.1, hchildren h.2.1, hrest h.2.2]

private theorem retouch_eq_self (h : ∀ b ∈ preorder p, g b.id b.inputs = b.inputs) : retouch g p = p := by
  induction p using induction with
  | nil => rfl
  | cons b rest hchildren hrest =>
    rw [preorder_cons, List.cons_append, List.forall_mem_cons, List.forall_mem_append] at h
    rw [retouch_cons, h.1, hchildren h.2.1, hrest h.2.2]
    cases b
    rfl

theorem ids_retouch (g : String → Fields α → Fields α) (p : Program α) : ids (retouch g p) = ids p := by
  induction p using induction with
  | nil => rfl
  | cons b rest hchildren hrest => rw [retouch_cons, ids_cons, ids_cons, hchildren, hrest]

theorem find?_retouch (g : String → Fields α → Fields α) (p : Program α) (name : String) :
    find? (retouch g p) name = (find? p name).map (Block.retouch g) := by
  induction p using induction with
  | nil => rfl
  | cons b rest hchildren hrest =>
    rw [retouch_cons, find?_cons, find?_cons]
    by_cases hid : b.id = name
    · rw [if_pos hid, if_pos hid, Option.map_some, Block.retouch_eq]
    · rw [if_neg hid, if_neg hid, hchildren, hrest]
      cases find? b.children name <;> rfl

private theorem eq_of_find? (hnodup : (ids p).Nodup) {name : String} {x b : Block α} (hx : find? p name = some x)
    (hb : b ∈ preorder p) (hid : b.id = name) : b = x := by
  have hname : x.id = name := by simpa using List.find?_some hx
  exact List.inj_on_of_nodup_map hnodup hb (List.mem_of_find?_eq_some hx) (hid.trans hname.symm)

/-! ## Writing one input -/

/-- A program with a value written under a name of the inputs of a block. -/
def write (p : Program α) (block name : String) (v : Value α) : Program α :=
  retouch (fun i fs => if i = block then fs.put name v else fs) p

private theorem splice_retouch (hnodup : (ids p).Nodup) {name : String} (hname : name ∈ ids p)
    (h : Fields α → Fields α) :
    splice name (fun b => [{ b with inputs := h b.inputs }]) p =
      some (retouch (fun i fs => if i = name then h fs else fs) p) := by
  have habsent : ∀ r : Program α, name ∉ ids r → retouch (fun i fs => if i = name then h fs else fs) r = r := by
    intro r hr
    apply retouch_eq_self
    intro b hb
    refine if_neg ?_
    rintro rfl
    exact hr (List.mem_map_of_mem hb)
  induction p using induction with
  | nil => cases hname
  | cons b rest hchildren hrest =>
    rw [ids_cons, List.cons_append, List.nodup_cons, List.mem_append, not_or, List.nodup_append] at hnodup
    obtain ⟨⟨hinside, hlater⟩, hnodup, hnodup', hdisjoint⟩ := hnodup
    rw [ids_cons, List.cons_append, List.mem_cons, List.mem_append] at hname
    rw [retouch_cons]
    rcases hname with rfl | hname | hname
    · rw [splice_cons_here rfl, if_pos rfl, habsent _ hinside, habsent _ hlater]
      rfl
    · have hne : name ≠ b.id := fun heq => hinside (heq ▸ hname)
      have hnot : name ∉ ids rest := fun hmem => hdisjoint name hname name hmem rfl
      rw [splice_cons_inside hne (hchildren hnodup hname), if_neg (Ne.symm hne), habsent _ hnot]
    · have hne : name ≠ b.id := fun heq => hlater (heq ▸ hname)
      have hnot : name ∉ ids b.children := fun hmem => hdisjoint name hmem name hname rfl
      have hother : name ∉ ids [b] := by simp [ids_cons, ids_nil, hne, hnot]
      rw [splice_cons_later hother, hrest hnodup' hname, if_neg (Ne.symm hne), habsent _ hnot]
      cases b
      rfl

theorem setInput_write {c : Catalog α} {block name : String} {x : Block α} {t : BlockType α} (hnodup : (ids p).Nodup)
    (hx : find? p block = some x) (ht : c.lookup x.typeId = .ok t) (hspec : (t.input? name).isSome = true)
    (v : Value α) :
    p.setInput c block name v = .ok (p.write block name v, { x with inputs := x.inputs.put name v }) := by
  have hlocate : p.locate block = .ok x := by rw [locate, hx]
  have hedit : p.edit block (fun b => [{ b with inputs := b.inputs.put name v }]) = .ok (p.write block name v) := by
    rw [edit, splice_retouch hnodup (isSome_find?.mp (by rw [hx]; rfl)) fun fs => fs.put name v]
    rfl
  obtain ⟨spec, hspec⟩ := Option.isSome_iff_exists.mp hspec
  rw [Program.setInput, hlocate]
  change (c.lookup x.typeId).bind _ = _
  rw [ht]
  simp only [Except.bind, hspec, hedit]
  rfl

/-- A value that is stored in a block, under the name of an input that its type declares. -/
def Stores (c : Catalog α) (p : Program α) (block name : String) (v : Value α) : Prop :=
  ∃ x t, find? p block = some x ∧ x.inputs.get? name = some v ∧ c.lookup x.typeId = .ok t ∧
    (t.input? name).isSome = true

namespace Stores

variable {c : Catalog α} {block name block' name' : String} {v v' : Value α}

theorem setInput (h : Stores c p block name v) (hnodup : (ids p).Nodup) (w : Value α) :
    ∃ b, p.setInput c block name w = .ok (p.write block name w, b) := by
  obtain ⟨x, t, hx, -, ht, hspec⟩ := h
  exact ⟨_, setInput_write hnodup hx ht hspec w⟩

theorem write (h : Stores c p block name v) (block' name' : String) (w : Value α) :
    ∃ u, Stores c (p.write block' name' w) block name u := by
  obtain ⟨x, t, hx, hv, ht, hspec⟩ := h
  have hfound : ∃ cs, find? (p.write block' name' w) block = some ⟨x.id, x.typeId,
      if x.id = block' then x.inputs.put name' w else x.inputs, cs⟩ := by
    rw [Program.write, find?_retouch, hx, Option.map_some, Block.retouch_eq]
    exact ⟨_, rfl⟩
  obtain ⟨cs, hfound⟩ := hfound
  obtain ⟨u, hu⟩ : ∃ u, (if x.id = block' then x.inputs.put name' w else x.inputs).get? name = some u := by
    by_cases hblock : x.id = block'
    · rw [if_pos hblock, Fields.get?_put]
      by_cases hname : name = name'
      · exact ⟨w, if_pos hname⟩
      · exact ⟨v, (if_neg hname).trans hv⟩
    · rw [if_neg hblock]
      exact ⟨v, hv⟩
  exact ⟨u, _, t, hfound, hu, ht, hspec⟩

theorem write_back (h : Stores c p block name v) (hnodup : (ids p).Nodup) (w : Value α) :
    (p.write block name w).write block name v = p := by
  obtain ⟨x, t, hx, hv, -, -⟩ := h
  rw [Program.write, Program.write, retouch_retouch]
  apply retouch_eq_self
  intro b hb
  by_cases hid : b.id = block
  · rw [if_pos hid, if_pos hid, eq_of_find? hnodup hx hb hid, Fields.put_put, Fields.put_get? hv]
  · rw [if_neg hid, if_neg hid]

theorem write_comm (h : Stores c p block name v) (h' : Stores c p block' name' v')
    (hne : (block, name) ≠ (block', name')) (hnodup : (ids p).Nodup) (w w' : Value α) :
    (p.write block name w).write block' name' w' = (p.write block' name' w').write block name w := by
  obtain ⟨x, t, hx, hv, -, -⟩ := h
  obtain ⟨x', t', hx', hv', -, -⟩ := h'
  simp only [Program.write, retouch_retouch]
  apply retouch_congr
  intro b hb
  by_cases hid : b.id = block
  · by_cases hid' : b.id = block'
    · have hnames : name ≠ name' := fun heq => hne (by rw [← hid, ← hid', heq])
      rw [← eq_of_find? hnodup hx hb hid] at hv
      rw [← eq_of_find? hnodup hx' hb hid'] at hv'
      simp only [if_pos hid, if_pos hid']
      exact Fields.put_comm hnames (Fields.mem_names_of_get? hv) (Fields.mem_names_of_get? hv') w w'
    · simp only [if_pos hid, if_neg hid']
  · simp only [if_neg hid]

end Stores

end Program

end SpriteStage
