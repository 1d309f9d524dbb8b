import SpriteStage.Proofs.Duplication
import SpriteStage.Proofs.Retouching
/-!
# Edits that are undone

Each edit of a program has another one that undoes it: what was added is removed, what was moved
is moved back, and what was set is set to what it was. The second edit has to find the place of
the first again in the program that the first has made; it does because the first moves nothing
else and brings no name twice.
-/
namespace SpriteStage

variable {α : Type}

namespace Program

variable {p q : Program α}

/-! ## Blocks that were added -/

private theorem splice_append_later {name : String} (h : name ∉ ids p) (g : Block α → List (Block α))
    (rest : Program α) :
    splice name g (p ++ rest) = (splice name g rest).map (p ++ ·) := by
  induction p with
  | nil =>
    rw [List.nil_append]
    cases splice name g rest <;> rfl
  | cons b p ih =>
    rw [← List.singleton_append, ids_append, List.mem_append, not_or] at h
    rw [List.cons_append, splice_cons_later h.1, ih h.2, Option.map_map]
    rfl

private theorem remove_of_splice {name : String} (h : splice name (fun _ => []) q = some p) :
    ∃ b, q.remove name = .ok (p, b) := by
  rcases (splice_cases name fun _ => []).2 q with ⟨hnone, -⟩ | ⟨b, r, hsome, hfound, -⟩
  · rw [h] at hnone
    cases hnone
  · have hlocate : q.locate name = .ok b := by rw [locate, hfound]
    have hedit : q.edit name (fun _ => []) = .ok p := by rw [edit, h]
    refine ⟨b, ?_⟩
    rw [remove, hlocate]
    change (q.edit name _).bind _ = _
    rw [hedit]
    rfl

private theorem append_remove {c : Catalog α} {b : Block α} (hnew : b.id ∉ ids p) {parent : Option String}
    (h : p.append c b parent = .ok q) : ∃ r, q.remove b.id = .ok (p, r) := by
  have hend : ∀ cs : Program α, b.id ∉ ids cs → splice b.id (fun _ => []) (cs ++ [b]) = some cs := by
    intro cs hcs
    rw [splice_append_later hcs, splice_cons_here rfl, Option.map_some]
    simp
  apply remove_of_splice
  cases parent with
  | none =>
    cases h
    exact hend p hnew
  | some parent =>
    obtain ⟨holder, hholder, h⟩ := bind_eq_ok h
    obtain ⟨t, -, h⟩ := bind_eq_ok h
    split at h
    · obtain ⟨x, hx, hgraft⟩ := edit_eq_ok h
      cases locate_unique hholder hx
      apply hgraft.splice_back hnew
      have hother : b.id ∉ ids [holder] := fun hmem => hnew (hgraft.ids_subset hmem)
      obtain ⟨i, typeId, inputs, children⟩ := holder
      obtain ⟨hid, hinside⟩ : b.id ≠ i ∧ b.id ∉ ids children := by simpa [ids_cons, ids_nil] using hother
      exact splice_cons_inside (b := ⟨i, typeId, inputs, children ++ [b]⟩) hid (hend children hinside) []
    · cases h

private theorem Duplicated.clone_new {source clone : Block α} {n : Nat} (h : p.Duplicated source clone n q)
    (hahead : ∀ i, n ≤ i → blockName i ∉ ids p) : clone.id ∉ ids p := by
  have hmem : clone.id ∈ ids [clone] := by rw [ids_cons]; exact List.mem_cons_self
  rw [h.named] at hmem
  obtain ⟨i, hle, -, hname⟩ := mem_issued.mp hmem
  rw [← hname]
  exact hahead i hle

private theorem Duplicated.remove {source clone : Block α} {n : Nat} (h : p.Duplicated source clone n q)
    (hahead : ∀ i, n ≤ i → blockName i ∉ ids p) : ∃ r, q.remove clone.id = .ok (p, r) := by
  have hnew := h.clone_new hahead
  apply remove_of_splice
  apply h.placed.splice_back hnew
  have hother : clone.id ∉ ids [source] := fun hmem => hnew (h.placed.ids_subset hmem)
  rw [splice_cons_later hother, splice_cons_here rfl]
  rfl

private theorem Duplicated.copyDepth {source clone : Block α} {n : Nat} (h : p.Duplicated source clone n q) :
    Program.copyDepth q = Program.copyDepth p := by
  apply h.placed.copyDepth
  have hclone : clone.copyDepth = source.copyDepth := by
    rw [← copyDepth_nameless.1, h.alike, copyDepth_nameless.1]
  simp only [Program.copyDepth, hclone, Nat.max_zero, Nat.max_self]

/-! ## Blocks that were moved -/

private theorem reorder_back {i j : Nat} (hi : i < p.length) (hj : j < p.length) :
    ∃ q, p.reorder i j = .ok q ∧ q.reorder j i = .ok p ∧ q.Perm p ∧ q.eraseIdx j = p.eraseIdx i ∧ q[j]? = p[i]? := by
  have hreorder : ∀ {r : Program α} {source target : Nat} {b : Block α}, source < r.length → target < r.length →
      r[source]? = some b → r.reorder source target = .ok ((r.eraseIdx source).insertIdx target b) := by
    intro r source target b hsource htarget hb
    have hbounds : (0 : Int) ≤ source ∧ (source : Int) < r.length ∧
        (0 : Int) ≤ target ∧ (target : Int) < r.length := by
      omega
    simp only [reorder, if_pos hbounds, Int.toNat_natCast, hb]
  have hlength : (p.eraseIdx i).length + 1 = p.length := by
    rw [List.length_eraseIdx_of_lt hi]
    omega
  have hle : j ≤ (p.eraseIdx i).length := by omega
  have hperm : ((p.eraseIdx i).insertIdx j p[i]).Perm p :=
    (List.perm_insertIdx _ _ hle).trans (List.getElem_cons_eraseIdx_perm hi)
  have hmoved : ((p.eraseIdx i).insertIdx j p[i])[j]? = some p[i] := by
    rw [List.getElem?_insertIdx_self, if_pos hle]
  have hothers : ((p.eraseIdx i).insertIdx j p[i]).eraseIdx j = p.eraseIdx i :=
    List.eraseIdx_insertIdx_self _
  refine ⟨_, hreorder hi hj (List.getElem?_eq_getElem hi), ?_, hperm, hothers, ?_⟩
  · rw [hreorder (by rwa [hperm.length_eq]) (by rwa [hperm.length_eq]) hmoved, hothers,
      List.insertIdx_eraseIdx_getElem]
  · rw [hmoved, List.getElem?_eq_getElem hi]

end Program

variable [Scalar α]

namespace Stage

variable {s : Stage α} {actor : Int} {a : Actor α} {p : Program α}

namespace Editable

private theorem removeBlock (h : s.Editable actor a) {block : String} {b : Block α}
    (hp : a.program.remove block = .ok (p, b)) : (s.removeBlock actor block).Leaves actor { a with program := p } :=
  h.leaves (h.editProgram (f := fun q => q.remove block) hp)

private theorem reorder (h : s.Editable actor a) {source target : Int}
    (hp : a.program.reorder source target = .ok p) :
    (s.reorder actor source target).stage = s.reprogram a p ∧
      (s.reorder actor source target).Leaves actor { a with program := p } := by
  have hedit : (a.program.reorder source target).map (·, ()) = .ok (p, ()) := by rw [hp]; rfl
  have hdone := h.editProgram (f := fun q => (q.reorder source target).map (·, ())) hedit
  exact ⟨hdone.1, h.leaves hdone⟩

private theorem editInput (h : s.Editable actor a) (hnodup : (Program.ids a.program).Nodup) {block name : String}
    {old : Value α} (hstores : Program.Stores s.world.catalog a.program block name old) (v : Value α) :
    (s.editInput actor block name v).stage = s.reprogram a (a.program.write block name v) ∧
      (s.editInput actor block name v).Leaves actor { a with program := a.program.write block name v } := by
  obtain ⟨b, hset⟩ := hstores.setInput hnodup v
  have hdone := h.editProgram (f := fun q => q.setInput s.world.catalog block name v) hset
  exact ⟨hdone.1, h.leaves hdone⟩

private theorem submit_remove (h : s.Editable actor a) (hahead : s.NamesAhead) {typeId : String}
    {inputs : Fields α}
    {parent : Option String} {b : Block α}
    (hb : s.world.catalog.newBlock (blockName s.nextBlock) typeId inputs = .ok b)
    (hp : a.program.append s.world.catalog b parent = .ok p) :
    (s.submit actor typeId inputs parent).Leaves actor { a with program := p } ∧
      (Program.copyDepth p ≤ s.world.room - editSteps →
        ((s.submit actor typeId inputs parent).stage.removeBlock actor b.id).Leaves actor a) := by
  have hdone := h.submit hb hp
  have hnew : b.id ∉ Program.ids a.program := by
    rw [(Catalog.newBlock_fits hb).1]
    exact hahead.program h.found (Nat.le_refl _)
  obtain ⟨r, hremove⟩ := Program.append_remove hnew hp
  exact ⟨h.leaves hdone, fun hroom => (h.again hdone.1 hroom).removeBlock hremove⟩

private theorem duplicate_remove (h : s.Editable actor a) (hahead : s.NamesAhead) {block : String}
    (hblock : block ∈ Program.ids a.program) :
    ∃ source clone q, Program.find? a.program block = some source ∧
      a.program.Duplicated source clone s.nextBlock q ∧
      (s.duplicate actor block).Leaves actor { a with program := q } ∧
      ((s.duplicate actor block).stage.removeBlock actor clone.id).Leaves actor a := by
  have hprogram : ∀ i, s.nextBlock ≤ i → blockName i ∉ Program.ids a.program :=
    fun i hi => hahead.program h.found hi
  obtain ⟨source, clone, q, hsource, hduplicate, hduplicated⟩ := Program.duplicate_duplicated hblock hprogram
  obtain ⟨r, hremove⟩ := hduplicated.remove hprogram
  have hdone := h.duplicate hduplicate
  have hroom : Program.copyDepth q ≤ s.world.room - editSteps := by
    rw [hduplicated.copyDepth]
    exact h.room
  exact ⟨source, clone, q, hsource, hduplicated, h.leaves hdone, (h.again hdone.1 hroom).removeBlock hremove⟩

private theorem reorder_reorder (h : s.Editable actor a) {i j : Nat} (hi : i < a.program.length)
    (hj : j < a.program.length) :
    ∃ q, (s.reorder actor i j).Leaves actor { a with program := q } ∧ q.Perm a.program ∧
      q.eraseIdx j = a.program.eraseIdx i ∧ q[j]? = a.program[i]? ∧
      ((s.reorder actor i j).stage.reorder actor j i).Leaves actor a := by
  obtain ⟨q, hmoved, hback, hperm, hothers, hplace⟩ := Program.reorder_back hi hj
  have hroom : Program.copyDepth q ≤ s.world.room - editSteps := by
    rw [Program.copyDepth_perm hperm]
    exact h.room
  obtain ⟨hstage, hleaves⟩ := h.reorder hmoved
  exact ⟨q, hleaves, hperm, hothers, hplace, ((h.again hstage hroom).reorder hback).2⟩

private theorem editInput_editInput (h : s.Editable actor a) (hnodup : (Program.ids a.program).Nodup)
    {block name block' name' : String} {old old' : Value α}
    (hstores : Program.Stores s.world.catalog a.program block name old)
    (hstores' : Program.Stores s.world.catalog a.program block' name' old') {v : Value α}
    (hroom : Program.copyDepth (a.program.write block name v) ≤ s.world.room - editSteps) (v' : Value α) :
    ((s.editInput actor block name v).stage.editInput actor block' name' v').Leaves actor
      { a with program := (a.program.write block name v).write block' name' v' } := by
  obtain ⟨u, hstill⟩ := hstores'.write block name v
  have hnodup' : (Program.ids (a.program.write block name v)).Nodup := by
    rw [Program.write, Program.ids_retouch]
    exact hnodup
  have hagain := h.again (h.editInput hnodup hstores v).1 hroom
  have hcatalog : (s.editInput actor block name v).stage.world.catalog = s.world.catalog := by
    rw [(h.editInput hnodup hstores v).1]
    rfl
  exact (hagain.editInput hnodup' (hcatalog ▸ hstill) v').2

end Editable

/-- Edits of an idle actor's program are undone by others: a block that was added, at the end or inside of a
container, and a copy that was made are removed again, and what was moved or set is moved or set back. Moving a block
keeps the others in order, and inputs that are there are set in either order. There has to be room for copying the
program, also as the first edit leaves it. -/
theorem edits_undone {s : Stage α} {actor : Int} {a : Actor α} (h : s.Editable actor a) (hahead : s.NamesAhead)
    (hnodup : (Program.ids a.program).Nodup) :
    (∀ typeId inputs parent b p, s.world.catalog.newBlock (blockName s.nextBlock) typeId inputs = .ok b →
      a.program.append s.world.catalog b parent = .ok p →
      (s.submit actor typeId inputs parent).Leaves actor { a with program := p } ∧
        (Program.copyDepth p ≤ s.world.room - editSteps →
          ((s.submit actor typeId inputs parent).stage.removeBlock actor b.id).Leaves actor a)) ∧
    (∀ block ∈ Program.ids a.program, ∃ source clone q, Program.find? a.program block = some source ∧
      a.program.Duplicated source clone s.nextBlock q ∧
      (s.duplicate actor block).Leaves actor { a with program := q } ∧
      ((s.duplicate actor block).stage.removeBlock actor clone.id).Leaves actor a) ∧
    (∀ i j : Nat, i < a.program.length → j < a.program.length →
      ∃ q, (s.reorder actor i j).Leaves actor { a with program := q } ∧ q.Perm a.program ∧
        q.eraseIdx j = a.program.eraseIdx i ∧ q[j]? = a.program[i]? ∧
        ((s.reorder actor i j).stage.reorder actor j i).Leaves actor a) ∧
    (∀ block name old, Program.Stores s.world.catalog a.program block name old → ∀ v,
      (s.editInput actor block name v).Leaves actor { a with program := a.program.write block name v } ∧
        (Program.copyDepth (a.program.write block name v) ≤ s.world.room - editSteps →
          ((s.editInput actor block name v).stage.editInput actor block name old).Leaves actor a)) ∧
    ∀ block name old block' name' old', Program.Stores s.world.catalog a.program block name old →
      Program.Stores s.world.catalog a.program block' name' old' → (block, name) ≠ (block', name') → ∀ v v',
      Program.copyDepth (a.program.write block name v) ≤ s.world.room - editSteps →
      Program.copyDepth (a.program.write block' name' v') ≤ s.world.room - editSteps →
      ((s.editInput actor block name v).stage.editInput actor block' name' v').Leaves actor
          { a with program := (a.program.write block name v).write block' name' v' } ∧
        ((s.editInput actor block' name' v').stage.editInput actor block name v).Leaves actor
          { a with program := (a.program.write block name v).write block' name' v' } := by
  refine ⟨fun _ _ _ _ _ hb hp => h.submit_remove hahead hb hp, fun _ hblock => h.duplicate_remove hahead hblock,
    fun _ _ hi hj => h.reorder_reorder hi hj, ?_, ?_⟩
  · intro block name old hstores v
    refine ⟨(h.editInput hnodup hstores v).2, fun hroom => ?_⟩
    have hback := h.editInput_editInput hnodup hstores hstores hroom old
    rwa [hstores.write_back hnodup] at hback
  · intro block name old block' name' old' hstores hstores' hne v v' hroom hroom'
    have hone := h.editInput_editInput hnodup hstores hstores' hroom v'
    have hother := h.editInput_editInput hnodup hstores' hstores hroom' v
    rw [← hstores.write_comm hstores' hne hnodup] at hother
    exact ⟨hone, hother⟩

theorem knotted_edits_undone :
    ∃ a, knotted.Editable 1 a ∧ knotted.NamesAhead ∧ (Program.ids a.program).Nodup ∧
      ((knotted.submit 1 "wait" [] (some "b1")).stage.removeBlock 1 "b3").Leaves 1 a ∧
      ((knotted.editInput 1 "b2" "degrees" (.int 90)).stage.editInput 1 "b2" "degrees" (.int 15)).Leaves 1 a := by
  obtain ⟨a, heditable, hahead, hprogram⟩ := knotted_editable
  have hnodup : (Program.ids a.program).Nodup := by
    rw [hprogram]
    decide
  obtain ⟨hadded, -, -, hset, -⟩ := edits_undone heditable hahead hnodup
  rw [hprogram] at hadded hset
  have hstores : Program.Stores knotted.world.catalog knottedProgram "b2" "degrees" (.int 15) :=
    ⟨_, _, rfl, rfl, rfl, rfl⟩
  refine ⟨a, heditable, hahead, hnodup, ?_, ?_⟩
  · exact (hadded "wait" [] (some "b1") _ _ rfl rfl).2 (by decide +kernel)
  · exact (hset "b2" "degrees" _ hstores (.int 90)).2 (by decide +kernel)

/-- A block can be added that cannot be removed any more: the program that it is added to may still be copied, and
what comes of it not. -/
theorem ponderous_not_undone : ∃ (s : Stage Float) (a : Actor Float) (b : Block Float), Reachable s ∧ s.Editable 1 a ∧
    (Program.ids a.program).Nodup ∧ (s.submit 1 "say" [("message", crate 80)] (some "b150")).result = .ok b ∧
    ((s.submit 1 "say" [("message", crate 80)] (some "b150")).stage.removeBlock 1 b.id).result =
      .error (.noRoom .copying) ∧
    ((s.submit 1 "say" [("message", crate 80)] (some "b150")).stage.removeBlock 1 b.id).stage.store.get? 1 ≠
      some a := by
  obtain ⟨s, a, hreachable, heditable, hprogram, hresult, hafter, hdeep⟩ := ponderous_submitted
  refine ⟨s, a, ponderous, hreachable, heditable, ?_, hresult, ?_⟩
  · rw [hprogram, ids_nested, Program.ids_nil, List.append_nil]
    exact issued_nodup _ _
  generalize (s.submit 1 "say" [("message", crate 80)] (some "b150")).stage = s' at hafter hdeep
  have hrefused : s'.removeBlock 1 ponderous.id = s'.refuse (.noRoom .copying) := by
    rw [removeBlock, Stage.editProgram, hdeep]
    rfl
  have hchanged : (nested 1 [ponderous] 150 : Program Float) ≠ a.program := by
    intro heq
    have hcount := congrArg (fun p => (Program.ids p).length) heq
    simp [hprogram, ids_nested, Program.ids_cons, Program.ids_nil] at hcount
  rw [hrefused]
  refine ⟨rfl, ?_⟩
  change s'.store.get? 1 ≠ some a
  rw [hafter]
  exact fun heq => hchanged (congrArg Actor.program (Option.some.inj heq))

end Stage

end SpriteStage
