import SpriteStage.Proofs.Grafting
/-!
# Actors whose programs can be edited

An edit reads the program of an idle actor from a copy. Nothing sees to it that there is: loops
can be put into one another until the program cannot be copied any more.
-/
namespace SpriteStage

variable {α : Type}

/-! ## Loops in loops -/

private theorem Program.append_inside {c : Catalog α} {p q : Program α} {b holder : Block α} {parent : String}
    {t : BlockType α} (hfound : find? p parent = some holder) (ht : c.lookup holder.typeId = .ok t)
    (hcontainer : t.isContainer = true)
    (hsplice : splice parent (fun h => [{ h with children := h.children ++ [b] }]) p = some q) :
    p.append c b (some parent) = .ok q := by
  have hlocate : p.locate parent = .ok holder := by rw [locate, hfound]
  rw [append, hlocate]
  change (c.lookup holder.typeId).bind _ = _
  rw [ht]
  simp only [Except.bind, hcontainer, if_true, edit, hsplice]

def loop (i : Nat) (core : Program α) : Block α := ⟨blockName i, "repeat", [("times", .int 10)], core⟩

/-- Loops, each inside the one before, with some blocks in the innermost. The loops have the names from `i` on. -/
def nested (i : Nat) (core : Program α) : Nat → Program α
  | 0 => core
  | n + 1 => [loop i (nested (i + 1) core n)]

private theorem nested_loop (i n : Nat) (core : Program α) :
    nested i [loop (i + n) core] n = nested i core (n + 1) := by
  induction n generalizing i with
  | zero => rfl
  | succ n ih =>
    have hrest := ih (i + 1)
    rw [Nat.add_right_comm] at hrest
    rw [nested, ← Nat.add_assoc, hrest]
    rfl

theorem ids_nested (i n : Nat) (core : Program α) :
    Program.ids (nested i core n) = issued i (i + n) ++ Program.ids core := by
  induction n generalizing i with
  | zero => rw [Nat.add_zero, issued_self]; rfl
  | succ n ih =>
    have hfirst := issued_append (Nat.le_succ i) (Nat.le_add_right (i + 1) n)
    rw [issued_succ, Nat.add_right_comm] at hfirst
    rw [nested, Program.ids_cons, Program.ids_nil, List.append_nil, ← Nat.add_assoc, ← hfirst, Nat.add_right_comm i n]
    exact congrArg (blockName i :: ·) (ih (i + 1))

private theorem copyDepth_nested (i n : Nat) (b : Block α) :
    Program.copyDepth (nested i [b] n) = 6 * n + b.copyDepth := by
  have hblock : 6 ≤ b.copyDepth := by
    obtain ⟨_, _, inputs, children⟩ := b
    rw [Block.copyDepth]
    omega
  induction n generalizing i with
  | zero => simp [nested, Program.copyDepth]
  | succ n ih =>
    rw [nested, Program.copyDepth, loop, Block.copyDepth, ih]
    simp only [Value.copyDepthOfFields, Value.copyDepth, Program.copyDepth]
    omega

private theorem copyDepth_nested_le (i n : Nat) : Program.copyDepth (nested i [] n : Program α) ≤ 6 * n + 1 := by
  cases n with
  | zero => exact Nat.zero_le _
  | succ n =>
    have hloop : (loop (i + n) [] : Block α).copyDepth = 7 := rfl
    rw [← nested_loop, copyDepth_nested, hloop]
    omega

private theorem nested_innermost (i n : Nat) (b : Block α) :
    Program.find? (nested i [] (n + 1)) (blockName (i + n)) = some (loop (i + n) [] : Block α) ∧
      Program.splice (blockName (i + n)) (fun h => [{ h with children := h.children ++ [b] }]) (nested i [] (n + 1)) =
        some (nested i [b] (n + 1)) := by
  induction n generalizing i with
  | zero =>
    have hsame : (loop i [] : Block α).id = blockName (i + 0) := rfl
    exact ⟨(Program.find?_cons _ _ _).trans (if_pos hsame), Program.splice_cons_here hsame _ []⟩
  | succ n ih =>
    obtain ⟨hfound, hsplice⟩ := ih (i + 1)
    have hshift : i + 1 + n = i + (n + 1) := by omega
    rw [hshift] at hfound hsplice
    have hother : blockName (i + (n + 1)) ≠ blockName i := fun heq => by
      have hsame := blockName_injective heq
      omega
    rw [nested]
    refine ⟨?_, Program.splice_cons_inside (b := loop i _) hother hsplice []⟩
    have hid : (loop i (nested (i + 1) [] (n + 1)) : Block α).id ≠ blockName (i + (n + 1)) := Ne.symm hother
    rw [Program.find?_cons, if_neg hid]
    exact congrArg (Option.or · _) hfound

def innermost? : Nat → Option String
  | 0 => none
  | n + 1 => some (blockName (n + 1))

private theorem nested_append (n : Nat) (b : Block α) :
    Program.append Catalog.builtIn (nested 1 [] n) b (innermost? n) = .ok (nested 1 [b] n) := by
  cases n with
  | zero => rfl
  | succ n =>
    obtain ⟨hholder, hsplice⟩ := nested_innermost 1 n b
    rw [Nat.add_comm 1 n] at hholder hsplice
    exact Program.append_inside hholder rfl rfl hsplice

variable [Scalar α]

/-! ## Edits of a program -/

/-- What an edit leaves of an actor. The edit goes through if the program can be told. -/
structure Reply.Leaves {β : Type} (r : Reply α (Except Error β)) (actor : Int) (a : Actor α) : Prop where
  stored : r.stage.store.get? actor = some a
  answered : a.program.Tellable → ∃ result, r.result = .ok result

namespace Stage

/-- An idle actor with a program that there is room to copy. -/
structure Editable (s : Stage α) (actor : Int) (a : Actor α) : Prop where
  found : s.store.get? actor = some a
  idle : a.runs = false
  room : Program.copyDepth a.program ≤ s.world.room - editSteps

def reprogram (s : Stage α) (a : Actor α) (p : Program α) : Stage α :=
  s.withStore (s.store.replace { a with program := p })

private theorem commit_result {β : Type} {s : Stage α} {actor : Int} {a : Actor α}
    (ha : s.store.get? actor = some a)
    {p : Program α} (hp : p.Tellable) (result : β) : (s.commit actor p result).result = .ok result := by
  have hnone : Program.flaw? .record blockRoom p = none := hp
  simp only [commit, tell, Store.publish_program s.settings ha, hnone]
  rfl

namespace Editable

variable {s : Stage α} {actor : Int} {a : Actor α} {p : Program α}

private theorem editable_of_idle (hfound : s.store.get? actor = some a) (hidle : a.runs = false) :
    s.editable actor = .ok a := by
  rw [editable, Store.get_of_get? hfound]
  exact if_neg (by simp [hidle])

private theorem programOf (h : s.Editable actor a) : s.programOf actor = .ok a.program := by
  rw [Stage.programOf, editable_of_idle h.found h.idle]
  exact if_neg (Nat.not_lt.mpr h.room)

private theorem programOf_deep (hfound : s.store.get? actor = some a) (hidle : a.runs = false)
    (hdeep : s.world.room - editSteps < Program.copyDepth a.program) :
    s.programOf actor = .error (.noRoom .copying) := by
  rw [Stage.programOf, editable_of_idle hfound hidle]
  exact if_pos hdeep

omit [Scalar α] in
theorem get?_reprogram (hfound : s.store.get? actor = some a) (p : Program α) :
    (s.reprogram a p).store.get? actor = some { a with program := p } := by
  have hid : a.id = actor := Store.get?_id hfound
  change (s.store.replace { a with program := p }).get? actor = _
  rw [Store.get?_replace, if_pos hid.symm, hfound, Option.map_some]

private theorem reprogram (h : s.Editable actor a) (hp : Program.copyDepth p ≤ s.world.room - editSteps) :
    (s.reprogram a p).Editable actor { a with program := p } where
  found := get?_reprogram h.found p
  idle := h.idle
  room := hp

private theorem withNames (h : s.Editable actor a) (n : Nat) :
    ({ s with nextBlock := n } : Stage α).Editable actor a :=
  ⟨h.found, h.idle, h.room⟩

theorem editProgram {β : Type} (h : s.Editable actor a) {f : Program α → Except Error (Program α × β)} {r : β}
    (hf : f a.program = .ok (p, r)) :
    (s.editProgram actor f).stage = s.reprogram a p ∧ (p.Tellable → (s.editProgram actor f).result = .ok r) := by
  have hedit : s.editProgram actor f = s.commit actor p r := by
    rw [Stage.editProgram, h.programOf]
    simp only [Except.bind, hf]
  rw [hedit]
  exact ⟨(commit_eq h.found p r).1, fun htellable => commit_result h.found htellable r⟩

theorem submit (h : s.Editable actor a) {typeId : String} {inputs : Fields α} {parent : Option String} {b : Block α}
    (hb : s.world.catalog.newBlock (blockName s.nextBlock) typeId inputs = .ok b)
    (hp : a.program.append s.world.catalog b parent = .ok p) :
    (s.submit actor typeId inputs parent).stage =
        ({ s with nextBlock := s.nextBlock + 1 } : Stage α).reprogram a p ∧
      (p.Tellable → (s.submit actor typeId inputs parent).result = .ok b) := by
  have hedit : (a.program.append s.world.catalog b parent).map (·, b) = .ok (p, b) := by rw [hp]; rfl
  simp only [Stage.submit, hb]
  exact (h.withNames _).editProgram hedit

theorem duplicate (h : s.Editable actor a) {block : String} {clone : Block α} {next : Nat}
    (hp : a.program.duplicate block s.nextBlock = .ok (p, clone, next)) :
    (s.duplicate actor block).stage = ({ s with nextBlock := next } : Stage α).reprogram a p ∧
      (p.Tellable → (s.duplicate actor block).result = .ok clone) := by
  have hedit : s.duplicate actor block = ({ s with nextBlock := next } : Stage α).commit actor p clone := by
    rw [Stage.duplicate, h.programOf]
    simp only [Except.bind, hp]
  rw [hedit]
  exact ⟨(commit_eq (h.withNames next).found p clone).1,
    fun htellable => commit_result (h.withNames next).found htellable clone⟩

theorem leaves {β : Type} (h : s.Editable actor a) {r : Reply α (Except Error β)} {n : Nat} {result : β}
    (hr : r.stage = ({ s with nextBlock := n } : Stage α).reprogram a p ∧ (p.Tellable → r.result = .ok result)) :
    r.Leaves actor { a with program := p } where
  stored := by
    rw [hr.1]
    exact get?_reprogram (s := { s with nextBlock := n }) h.found p
  answered htellable := ⟨result, hr.2 htellable⟩

theorem again {β : Type} (h : s.Editable actor a) {r : Reply α (Except Error β)} {n : Nat}
    (hstage : r.stage = ({ s with nextBlock := n } : Stage α).reprogram a p)
    (hp : Program.copyDepth p ≤ s.world.room - editSteps) : r.stage.Editable actor { a with program := p } := by
  rw [hstage]
  exact (h.withNames n).reprogram hp

end Editable

/-! ## Names to come -/

/-- No block on the stage has a name that is still to be given out. -/
def NamesAhead (s : Stage α) : Prop := ∀ i, s.nextBlock ≤ i → blockName i ∉ s.store.blockIds

private theorem Reachable.namesAhead {s : Stage α} (h : Reachable s) : s.NamesAhead := by
  induction h with
  | empty h =>
    intro i _
    have hnone : (Store.empty : Store α).blockIds = [] := rfl
    rw [h.store, hnone]
    exact List.not_mem_nil
  | act h a ih =>
    intro i hi hmem
    have hdescends := perform_descends h.orderly a
    obtain ⟨j, -, hj, hname⟩ := mem_issued.mp (hdescends.named hmem (ih i (Nat.le_trans hdescends.names hi)))
    cases blockName_injective hname
    omega

omit [Scalar α] in
theorem NamesAhead.program {s : Stage α} (h : s.NamesAhead) {actor : Int} {a : Actor α}
    (ha : s.store.get? actor = some a) {i : Nat} (hi : s.nextBlock ≤ i) : blockName i ∉ Program.ids a.program :=
  fun hmem => h i hi (Store.mem_blockIds.mpr ⟨a.program, List.mem_map_of_mem (Store.mem_of_get? ha), hmem⟩)

def knottedProgram : Program Float :=
  [⟨"b1", "repeat", [("times", .int 10)], [⟨"b2", "turn", [("degrees", .int 15)], []⟩]⟩]

theorem knotted_editable : ∃ a, knotted.Editable 1 a ∧ knotted.NamesAhead ∧ a.program = knottedProgram := by
  have hidle : (knotted.store.get? 1).all (fun a => !a.runs) = true := by decide +kernel
  have hprogram : (knotted.store.get? 1).map (·.program) = some knottedProgram := rfl
  have hroom : Program.copyDepth knottedProgram ≤ knotted.world.room - editSteps := by decide +kernel
  obtain ⟨a, ha, hknotted⟩ := Option.map_eq_some_iff.mp hprogram
  rw [ha, Option.all_some, Bool.not_eq_true'] at hidle
  exact ⟨a, ⟨ha, hidle, hknotted ▸ hroom⟩, ((Reachable.empty (new_isEmpty _ _)).enact _).namesAhead, hknotted⟩

/-! ## Programs that cannot be edited -/

/-- Up to 164 loops can be put into one another. -/
theorem nested_reachable {n : Nat} (hn : n ≤ 164) : ∃ (s : Stage Float) (a : Actor Float), Reachable s ∧
    s.store.get? 1 = some a ∧ a.runs = false ∧ a.program = nested 1 [] n ∧ s.nextBlock = n + 1 ∧
    s.world.catalog = Catalog.builtIn ∧ s.world.room = 986 := by
  induction n with
  | zero =>
    have hreachable : Reachable ((new Settings.standard ⟨[], 0⟩ : Stage Float).enact [.init]).1 :=
      (Reachable.empty (new_isEmpty _ _)).enact _
    have hfirst : (((new Settings.standard ⟨[], 0⟩ : Stage Float).enact [.init]).1.store.get? 1).any
        (fun a => !a.runs && a.program.isEmpty) = true := by decide +kernel
    obtain ⟨a, ha, hempty⟩ := (Option.any_eq_true _ _).mp hfirst
    simp only [Bool.and_eq_true, Bool.not_eq_true', List.isEmpty_iff] at hempty
    exact ⟨_, a, hreachable, ha, hempty.1, hempty.2, by decide +kernel, rfl, by decide +kernel⟩
  | succ n ih =>
    obtain ⟨s, a, hreachable, hfound, hidle, hprogram, hnext, hcatalog, hroom⟩ := ih (by omega)
    -- the program is copied before the next loop is put into it, so what counts is the depth without that loop
    have hdepth : Program.copyDepth a.program ≤ s.world.room - editSteps := by
      rw [hprogram, hroom, editSteps]
      exact Nat.le_trans (copyDepth_nested_le 1 n) (by omega)
    have hb : s.world.catalog.newBlock (blockName s.nextBlock) "repeat" [] = .ok (loop (n + 1) []) := by
      rw [hcatalog, hnext]
      rfl
    have happend : a.program.append s.world.catalog (loop (n + 1) []) (innermost? n) = .ok (nested 1 [] (n + 1)) := by
      rw [hprogram, hcatalog, ← nested_loop, Nat.add_comm 1 n]
      exact nested_append n _
    obtain ⟨hstage, -⟩ := (⟨hfound, hidle, hdepth⟩ : s.Editable 1 a).submit hb happend
    refine ⟨(s.submit 1 "repeat" [] (innermost? n)).stage, { a with program := nested 1 [] (n + 1) },
      hreachable.act (.submit 1 "repeat" [] (innermost? n)), ?_, hidle, rfl, ?_⟩
    · rw [hstage]
      exact Editable.get?_reprogram hfound _
    · rw [hstage]
      exact ⟨by rw [← hnext]; rfl, hcatalog, hroom⟩

/-- A block with a message that is a list with 80 lists around it. -/
def ponderous : Block Float := ⟨"b151", "say", [("message", crate 80), ("duration", .int 2)], []⟩

/-- A block is added to a program that can be edited, inside of 150 loops, and then the program cannot be edited any
more. -/
theorem ponderous_submitted : ∃ (s : Stage Float) (a : Actor Float), Reachable s ∧ s.Editable 1 a ∧
    a.program = nested 1 [] 150 ∧ (s.submit 1 "say" [("message", crate 80)] (some "b150")).result = .ok ponderous ∧
    (s.submit 1 "say" [("message", crate 80)] (some "b150")).stage.store.get? 1 =
      some { a with program := nested 1 [ponderous] 150 } ∧
    (s.submit 1 "say" [("message", crate 80)] (some "b150")).stage.programOf 1 = .error (.noRoom .copying) := by
  obtain ⟨s, a, hreachable, hfound, hidle, hprogram, hnext, hcatalog, hroom⟩ :=
    nested_reachable (n := 150) (by decide)
  have heditable : s.Editable 1 a := by
    refine ⟨hfound, hidle, ?_⟩
    rw [hprogram, hroom]
    exact Nat.le_trans (copyDepth_nested_le 1 150) (by decide)
  have hb : s.world.catalog.newBlock (blockName s.nextBlock) "say" [("message", crate 80)] = .ok ponderous := by
    rw [hcatalog, hnext]
    rfl
  have happend : a.program.append s.world.catalog ponderous (some "b150") = .ok (nested 1 [ponderous] 150) := by
    rw [hprogram, hcatalog]
    exact nested_append 150 _
  obtain ⟨hstage, hresult⟩ := heditable.submit hb happend
  have hafter : (s.submit 1 "say" [("message", crate 80)] (some "b150")).stage.store.get? 1 =
      some { a with program := nested 1 [ponderous] 150 } := by
    rw [hstage]
    exact Editable.get?_reprogram hfound _
  refine ⟨s, a, hreachable, heditable, hprogram, hresult (by decide +kernel), hafter,
    Editable.programOf_deep hafter hidle ?_⟩
  have hdepth : ponderous.copyDepth = 168 := by decide +kernel
  rw [hstage, copyDepth_nested, hdepth, editSteps]
  change s.world.room - 6 < _
  rw [hroom]
  decide

/-- An idle actor with a program that was made block by block and cannot be edited. -/
theorem ponderous_stuck : ∃ (s : Stage Float) (a : Actor Float), Reachable s ∧ s.store.get? 1 = some a ∧
    a.runs = false ∧ a.program = nested 1 [ponderous] 150 ∧ Program.ids a.program = issued 1 152 ∧
    s.programOf 1 = .error (.noRoom .copying) := by
  obtain ⟨s, a, hreachable, heditable, -, -, hafter, hdeep⟩ := ponderous_submitted
  have hids : Program.ids (nested 1 [ponderous] 150) = issued 1 152 := by
    rw [ids_nested]
    exact issued_append (n := 1) (m := 151) (k := 152) (by decide) (by decide)
  exact ⟨_, _, hreachable.act (.submit 1 "say" [("message", crate 80)] (some "b150")), hafter, heditable.idle, rfl,
    hids, hdeep⟩

end Stage

end SpriteStage
