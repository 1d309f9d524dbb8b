import SpriteStage.Proofs.Execution
/-!
# The legs of a run

A leg is what a run does between two suspensions. It goes through one sequence of blocks and into
the loops on its way, each for a single iteration, and never comes back to a block that it has
reached before. A block is told apart from others that look the same by where it stands.
-/
namespace SpriteStage

variable {α : Type}

/-- A block and where it stands: how many blocks follow it in its sequence, how many follow the loop around
it, and so on outwards. -/
structure Site (α : Type) where
  spot : List Nat
  block : Block α

mutual

/-- The sites of a block that stands somewhere and of the blocks in it, in pre-order. -/
def Block.sites (spot : List Nat) : Block α → List (Site α)
  | ⟨id, typeId, inputs, children⟩ =>
    ⟨spot, ⟨id, typeId, inputs, children⟩⟩ :: Program.sites spot children

def Program.sites (above : List Nat) : List (Block α) → List (Site α)
  | [] => []
  | b :: rest => Block.sites (rest.length :: above) b ++ Program.sites above rest

end

abbrev Block.tree (b : Block α) : List (Site α) := b.sites [0]

private theorem sites_length :
    (∀ (b : Block α) spot, (b.sites spot).length = b.size) ∧
    ∀ (p : Program α) above, (Program.sites above p).length = Program.size p := by
  apply Block.induction
  case block =>
    intro id typeId inputs children ih spot
    rw [Block.sites, Block.size, List.length_cons, ih]
  case nil => exact fun above => rfl
  case cons =>
    intro b rest hb hrest above
    rw [Program.sites, Program.size, List.length_append, hb, hrest]

private theorem sites_below :
    (∀ (b : Block α) spot, ∀ v ∈ b.sites spot, spot <:+ v.spot) ∧
    ∀ (p : Program α) above, ∀ v ∈ Program.sites above p,
      ∃ behind < p.length, (behind :: above) <:+ v.spot := by
  apply Block.induction
  case block =>
    intro id typeId inputs children ih spot v hv
    rcases List.mem_cons.mp hv with rfl | hv
    · exact List.suffix_refl _
    · obtain ⟨behind, -, hbelow⟩ := ih spot v hv
      exact (List.suffix_cons behind spot).trans hbelow
  case nil =>
    intro above v hv
    cases hv
  case cons =>
    intro b rest hb hrest above v hv
    rcases List.mem_append.mp hv with hv | hv
    · exact ⟨rest.length, by simp, hb _ v hv⟩
    · obtain ⟨behind, hlt, hbelow⟩ := hrest above v hv
      exact ⟨behind, by simp only [List.length_cons]; omega, hbelow⟩

private theorem sites_nodup :
    (∀ (b : Block α) spot, ((b.sites spot).map Site.spot).Nodup) ∧
    ∀ (p : Program α) above, ((Program.sites above p).map Site.spot).Nodup := by
  apply Block.induction
  case block =>
    intro id typeId inputs children ih spot
    rw [Block.sites, List.map_cons, List.nodup_cons]
    refine ⟨?_, ih spot⟩
    intro hmem
    obtain ⟨v, hv, hspot⟩ := List.mem_map.mp hmem
    obtain ⟨behind, -, hbelow⟩ := sites_below.2 children spot v hv
    have hlength := hbelow.length_le
    simp only [hspot, List.length_cons] at hlength
    omega
  case nil => exact fun above => List.nodup_nil
  case cons =>
    intro b rest hb hrest above
    rw [Program.sites, List.map_append]
    refine List.Nodup.append (hb _) (hrest above) ?_
    intro spot hleft hright
    obtain ⟨v, hv, rfl⟩ := List.mem_map.mp hleft
    obtain ⟨v', hv', hspot⟩ := List.mem_map.mp hright
    have hhere := sites_below.1 b _ v hv
    obtain ⟨behind, hlt, hthere⟩ := sites_below.2 rest above v' hv'
    rw [hspot] at hthere
    -- Both are ends of one list, and of one length.
    have hsame := (List.suffix_of_suffix_length_le hthere hhere (by simp)).eq_of_length (by simp)
    cases hsame
    omega

/-- The blocks that signals tell the reach of, each with its actor. -/
def Signal.dispatch? : Signal α → Option (Int × Block α)
  | .dispatched actor b _ => some (actor, b)
  | _ => none

@[inherit_doc Signal.dispatch?]
def dispatches (out : List (Signal α)) : List (Int × Block α) := out.filterMap Signal.dispatch?

@[simp]
theorem dispatches_append (out more : List (Signal α)) :
    dispatches (out ++ more) = dispatches out ++ dispatches more :=
  List.filterMap_append

private theorem dispatches_plain {out : List (Signal α)} (h : ∀ x ∈ out, x.Plain) : dispatches out = [] := by
  rw [dispatches, List.filterMap_eq_nil_iff]
  intro x hx
  have hplain := h x hx
  cases x with
  | event e => rfl
  | notice n => rfl
  | dispatched a b inputs => exact hplain.elim
  | pass a => rfl

private theorem dispatches_events {out : List (Signal α)} (h : ∀ x ∈ out, ∃ e, x = .event e) :
    dispatches out = [] := by
  apply dispatches_plain
  intro x hx
  obtain ⟨e, rfl⟩ := h x hx
  trivial

/-- What follows each of some loops, as far as it tells where a block stands in them. -/
def above (loops : List (Loop α)) : List Nat := loops.map (·.after.length)

variable [Scalar α]

namespace Leaf

omit [Scalar α] in
def out : Leaf α → List (Signal α)
  | .finished _ out => out
  | .sleeping _ out _ _ => out
  | .failed _ out => out

private theorem dispatches_out {actor : Int} {w : World α} {leaf : Leaf α} (h : leaf.Proper actor w) :
    dispatches leaf.out = [] := by
  cases leaf with
  | finished w' more => exact dispatches_events h.events
  | failed w' more => exact dispatches_events h.events
  | sleeping w' more seconds pause =>
    cases pause with
    | rest => exact dispatches_events h.events
    | frame motion span => exact dispatches_events h.events
    | bubble =>
      obtain ⟨text, shown⟩ := h
      obtain ⟨-, -, -, rfl⟩ := World.write_eq_ok.mp shown
      rfl

private theorem dispatches_wake (w : World α) (room : Nat) (now : α) (actor : Int) (pause : Pause α) :
    dispatches (wake w room now actor pause).out = [] := by
  rcases wake_cases w room now actor pause with
    ⟨-, w', said, cleared, hwake⟩ | ⟨-, hwake⟩ | ⟨-, hproper, -⟩
  · obtain ⟨-, -, -, rfl⟩ := World.write_eq_ok.mp cleared
    rw [hwake]
    rfl
  · rw [hwake]
    rfl
  · exact dispatches_out hproper

end Leaf

/-! ## What a leg reaches -/

namespace Moment

/-- The iterations that remain after the first one if the block is a loop that is entered. -/
def entered? (w : World α) (room : Nat) (typeId : String) (raw : Fields α) (children : Program α) :
    Option Nat :=
  match inputs? w typeId raw with
  | some (notices, .ok inputs) =>
    if room < (if notices.isEmpty then readSteps else fallbackSteps) then none
    else
      match Instruction.ofInputs? typeId inputs, children with
      | some (.loop (left + 1)), _ :: _ => some left
      | _, _ => none
  | _ => none

mutual

/-- The sites that a run reaches when it reaches a block, up to its next suspension. -/
def dispatchVisits (m : Moment α) (rest : Program α) (loops : List (Loop α)) (w : World α) :
    Block α → List (Site α)
  | ⟨id, typeId, raw, children⟩ =>
    ⟨rest.length :: above loops, ⟨id, typeId, raw, children⟩⟩ ::
      match entered? w (w.roomBelow loops.length) typeId raw children with
      | none => []
      | some left => sequenceVisits m (⟨children, left, rest⟩ :: loops) w children

def sequenceVisits (m : Moment α) (loops : List (Loop α)) (w : World α) :
    List (Block α) → List (Site α)
  | [] => []
  | b :: rest =>
    dispatchVisits m rest loops w b ++
      match dispatch m rest loops w b with
      | .inl _ => []
      | .inr (w, _) => sequenceVisits m loops w rest

end

/-- A leg never goes up or back: what it reaches is a selection of the sites ahead, in their order. -/
theorem visits_sublist (m : Moment α) :
    (∀ (b : Block α) rest loops w,
      (dispatchVisits m rest loops w b).Sublist (b.sites (rest.length :: above loops))) ∧
    ∀ (p : Program α) loops w,
      (sequenceVisits m loops w p).Sublist (Program.sites (above loops) p) := by
  apply Block.induction
  case block =>
    intro id typeId raw children ih rest loops w
    rw [dispatchVisits, Block.sites]
    apply List.Sublist.cons_cons
    split
    · exact List.nil_sublist _
    · exact ih _ w
  case nil => exact fun loops w => List.nil_sublist _
  case cons =>
    intro b rest hb hrest loops w
    rw [sequenceVisits, Program.sites]
    apply (hb rest loops w).append
    split
    · exact List.nil_sublist _
    · exact hrest loops _

/-- The signals of what a block comes to, held against the sites that it reaches. A block that the run fails at
is reached, but may not be told. -/
def Tells (actor : Int) (visits : List (Site α)) : Activity α ⊕ World α × List (Signal α) → Prop
  | .inl a => dispatches a.out <+: visits.map fun v => (actor, v.block)
  | .inr (_, out) => dispatches out = visits.map fun v => (actor, v.block)

omit [Scalar α] in
theorem dispatches_noted (noted : List (Notice α)) : dispatches (noted.map Signal.notice) = [] := by
  simp [dispatches, List.filterMap_map, Function.comp_def, Signal.dispatch?]

omit [Scalar α] in
theorem dispatches_announced (m : Moment α) (b : Block α) (noted : List (Notice α)) (inputs : Fields α) :
    dispatches (m.announced b noted inputs) = [(m.actor, b)] := by
  rw [announced, dispatches_append, dispatches_noted]
  rfl

private theorem entered?_eq_some {w : World α} {room : Nat} {typeId : String} {raw : Fields α}
    {children : Program α} {left : Nat} :
    entered? w room typeId raw children = some left ↔
      ∃ noted inputs, inputs? w typeId raw = some (noted, .ok inputs) ∧
        ¬ room < (if noted.isEmpty then readSteps else fallbackSteps) ∧
        Instruction.ofInputs? typeId inputs = some (.loop (left + 1)) ∧ children ≠ [] := by
  unfold entered?
  constructor
  · intro h
    split at h
    · rename_i noted inputs hinputs
      by_cases hroom : room < if noted.isEmpty then readSteps else fallbackSteps
      · rw [if_pos hroom] at h
        cases h
      · rw [if_neg hroom] at h
        split at h
        · rename_i hloop
          cases h
          exact ⟨noted, inputs, hinputs, hroom, hloop, List.cons_ne_nil _ _⟩
        · cases h
    · cases h
  · rintro ⟨noted, inputs, hinputs, hroom, hloop, hchildren⟩
    obtain ⟨first, others, rfl⟩ := List.exists_cons_of_ne_nil hchildren
    simp only [hinputs, if_neg hroom, hloop]

private theorem dispatch_entered (m : Moment α) (rest : Program α) {loops : List (Loop α)} {w : World α}
    {b : Block α} {left : Nat}
    (h : entered? w (w.roomBelow loops.length) b.typeId b.inputs b.children = some left) :
    ∃ noted inputs, dispatch m rest loops w b =
      .inl ((sequence m (⟨b.children, left, rest⟩ :: loops) w b.children).after
        (m.announced b noted inputs)) := by
  obtain ⟨id, typeId, raw, children⟩ := b
  obtain ⟨noted, inputs, hinputs, hroom, hloop, hchildren⟩ := entered?_eq_some.mp h
  obtain ⟨first, others, rfl⟩ := List.exists_cons_of_ne_nil hchildren
  refine ⟨noted, inputs, ?_⟩
  rw [dispatch]
  simp only [hinputs, if_neg hroom, hloop, announced]

private theorem afterLeaf_tells (m : Moment α) (rest : Program α) (loops : List (Loop α)) {w : World α}
    {leaf : Leaf α}
    (h : leaf.Proper m.actor w) {visits : List (Site α)} {said : List (Signal α)}
    (hsaid : dispatches said = visits.map fun v => (m.actor, v.block)) :
    Tells m.actor visits (m.afterLeaf rest loops said leaf) := by
  have hquiet : dispatches (said ++ leaf.out) = visits.map fun v => (m.actor, v.block) := by
    rw [dispatches_append, hsaid, Leaf.dispatches_out h, List.append_nil]
  cases leaf with
  | finished w' more => exact hquiet
  | sleeping w' more seconds pause =>
    simp only [Leaf.out] at hquiet
    simp only [Tells, afterLeaf, hquiet]
    exact List.prefix_refl _
  | failed w' more =>
    have hnotice : dispatches (α := α) [.notice (.programFailed m.actor)] = [] := rfl
    simp only [Leaf.out] at hquiet
    simp only [Tells, afterLeaf, Activity.after, Activity.fail, dispatches_append _ [_], hquiet, hnotice,
      List.append_nil]
    exact List.prefix_refl _

/-- A run that reaches a block and goes no deeper tells at most this block. -/
theorem dispatch_unentered {m : Moment α} {rest : Program α} {loops : List (Loop α)} {w : World α}
    {b : Block α}
    (h : entered? w (w.roomBelow loops.length) b.typeId b.inputs b.children = none) (spot : List Nat) :
    Tells m.actor [⟨spot, b⟩] (dispatch m rest loops w b) := by
  obtain ⟨id, typeId, raw, children⟩ := b
  rw [dispatch]
  dsimp only at h ⊢
  split
  · split
    · exact List.nil_prefix
    · exact rfl
  · rename_i noted resolved hinputs
    by_cases hroom : w.roomBelow loops.length < if noted.isEmpty then readSteps else fallbackSteps
    · rw [if_pos hroom]
      exact List.nil_prefix
    · rw [if_neg hroom]
      split
      · simp only [Tells, Activity.after, Activity.fail, dispatches_append, dispatches_noted]
        exact List.nil_prefix
      · rename_i inputs
        have hannounced := dispatches_announced m ⟨id, typeId, raw, children⟩ noted inputs
        rw [announced] at hannounced
        split
        · simp only [Tells, Activity.after, dispatches_append, hannounced]
          exact List.prefix_refl _
        · rename_i times hloop
          split
          · exact hannounced
          · exact hannounced
          · rename_i left hsome
            have hentered := entered?_eq_some.mpr ⟨noted, inputs, hinputs, hroom, hloop, hsome⟩
            rw [h] at hentered
            cases hentered
        · rename_i i hloop hi
          exact m.afterLeaf_tells rest loops (Leaf.begin_proper _ _ _ _ _) hannounced

private theorem visits_told (m : Moment α) :
    (∀ (b : Block α) rest loops w,
      Tells m.actor (dispatchVisits m rest loops w b) (dispatch m rest loops w b)) ∧
    ∀ (p : Program α) loops w, Tells m.actor (sequenceVisits m loops w p) (.inl (sequence m loops w p)) := by
  apply Block.induction
  case block =>
    intro id typeId raw children ih rest loops w
    rw [dispatchVisits]
    split
    · rename_i hnone
      exact dispatch_unentered hnone _
    · rename_i left hsome
      obtain ⟨noted, inputs, hdispatch⟩ := dispatch_entered m rest (b := ⟨id, typeId, raw, children⟩) hsome
      rw [hdispatch]
      simp only [Tells, Activity.after, dispatches_append, dispatches_announced, List.map_cons]
      exact List.prefix_cons_inj _ |>.mpr (ih _ w)
  case nil => exact fun loops w => List.nil_prefix
  case cons =>
    intro b rest hb hrest loops w
    have htold := hb rest loops w
    rw [sequenceVisits, sequence]
    cases hdispatch : dispatch m rest loops w b with
    | inl a =>
      rw [hdispatch] at htold
      simpa using htold
    | inr result =>
      obtain ⟨w', out⟩ := result
      -- The first block goes on, so all that it reaches is told, and what the others reach is told behind it.
      rw [hdispatch] at htold
      have hbehind := hrest loops w'
      simp only [Tells] at htold hbehind ⊢
      rw [Activity.after, dispatches_append, htold, List.map_append]
      exact (List.prefix_append_right_inj _).mpr hbehind

end Moment

/-! ## Where a run is suspended -/

/-- The sequences that a run can be about to go through inside of a top-level block, with the loops around
them. -/
inductive Block.Holds (top : Block α) : List (Loop α) → Program α → Prop where
  | whole : Holds top [] [top]
  | rest {loops : List (Loop α)} {b : Block α} {p : Program α} (h : Holds top loops (b :: p)) :
      Holds top loops p
  | body {loops : List (Loop α)} {b : Block α} {p : Program α} (left : Nat)
      (h : Holds top loops (b :: p)) : Holds top (⟨b.children, left, p⟩ :: loops) b.children

namespace Block.Holds

omit [Scalar α]

variable {top : Block α} {loops : List (Loop α)} {p : Program α}

private theorem sites (h : top.Holds loops p) : (Program.sites (above loops) p).Sublist top.tree := by
  induction h with
  | whole =>
    rw [Program.sites, Program.sites, List.append_nil]
    exact List.Sublist.refl _
  | rest _ ih =>
    rw [Program.sites] at ih
    exact (List.sublist_append_right _ _).trans ih
  | @body loops b p left _ ih =>
    obtain ⟨id, typeId, inputs, children⟩ := b
    rw [Program.sites, Block.sites] at ih
    exact ((List.sublist_cons_self _ _).trans (List.sublist_append_left _ _)).trans ih

private theorem loop {l : Loop α} (h : top.Holds (l :: loops) p) :
    ∃ b, l.body = b.children ∧ top.Holds loops (b :: l.after) := by
  generalize hlist : l :: loops = list at h
  induction h with
  | whole => cases hlist
  | rest _ ih => exact ih hlist
  | @body loops b p left h _ =>
    cases hlist
    exact ⟨b, rfl, h⟩

private theorem again {l : Loop α} (h : top.Holds (l :: loops) p) (left : Nat) :
    top.Holds ({ l with left } :: loops) l.body := by
  obtain ⟨b, hbody, hb⟩ := h.loop
  have hagain := Holds.body left hb
  rw [← hbody] at hagain
  exact hagain

private theorem leave {l : Loop α} (h : top.Holds (l :: loops) p) : top.Holds loops l.after := by
  obtain ⟨b, -, hb⟩ := h.loop
  exact hb.rest

end Block.Holds

/-- Where a run is suspended that has come to a top-level block. -/
def Place.Inside (top : Block α) : Place α → Prop
  | .fresh => False
  | .asleep _ rest loops _ => top.Holds loops rest
  | .turn loops _ => ∃ p, top.Holds loops p

def Halt.place? : Halt α → Option (Place α)
  | .sleep _ place => some place
  | .pass place => some place
  | .done _ => none

private theorem Moment.sequence_inside (m : Moment α) (top : Block α) :
    (∀ (b : Block α) rest loops w a place, top.Holds loops (b :: rest) →
      dispatch m rest loops w b = .inl a → a.halt.place? = some place → place.Inside top) ∧
    ∀ (p : Program α) loops w place, top.Holds loops p →
      (sequence m loops w p).halt.place? = some place → place.Inside top := by
  apply Block.induction
  case block =>
    intro id typeId raw children ih rest loops w a place hholds ha hplace
    have hreaches := dispatch_reaches m rest loops w ⟨id, typeId, raw, children⟩
    rw [ha] at hreaches
    generalize hresult : (Sum.inl a : Activity α ⊕ World α × List (Signal α)) = result at hreaches
    cases hreaches with
    | refused _ =>
      cases hresult
      cases hplace
    | skipped _ => cases hresult
    | broken _ _ =>
      cases hresult
      cases hplace
    | idle _ _ _ => cases hresult
    | enter _ _ _ =>
      cases hresult
      exact ih _ w place (.body _ hholds) hplace
    | leaf _ _ _ =>
      -- Only a block that sleeps suspends the run here.
      unfold afterLeaf at hresult
      split at hresult
      · cases hresult
      · cases hresult
        cases hplace
        exact hholds.rest
      · cases hresult
        cases hplace
  case nil =>
    intro loops w place hholds hplace
    rw [sequence] at hplace
    cases hplace
    exact ⟨[], hholds⟩
  case cons =>
    intro b rest hb hrest loops w place hholds hplace
    rw [sequence] at hplace
    split at hplace
    · rename_i a ha
      exact hb rest loops w a place hholds ha hplace
    · exact hrest loops _ place hholds.rest hplace

/-! ## Legs -/

/-- The sequence that a leg goes through, with the loops around it and the world it starts in. -/
structure Stretch (α : Type) where
  moment : Moment α
  loops : List (Loop α)
  world : World α
  blocks : Program α

namespace Moment

/-- Where `step` enters a program. -/
def stepStretch? (m : Moment α) (w : World α) : Option (Stretch α) :=
  match w.store.get? m.actor with
  | none => none
  | some a =>
    match a.program[m.index]? with
    | none => none
    | some block =>
      match w.write m.actor { stepIndex := some (.int m.index) } with
      | .error _ => none
      | .ok (w, _) => some ⟨m, [], w, [block]⟩

/-- Where `next` enters a program. -/
def nextStretch? (m : Moment α) (w : World α) : List (Loop α) → Option (Stretch α)
  | [] => stepStretch? { m with index := m.index + 1 } w
  | l :: loops =>
    match l.left with
    | 0 => some ⟨m, loops, w, l.after⟩
    | left + 1 => some ⟨m, { l with left } :: loops, w, l.body⟩

end Moment

namespace Place

/-- Where a leg enters the program; nowhere if it reaches no block. -/
def stretch? (now : α) (actor : Int) (w : World α) : Place α → Option (Stretch α)
  | .fresh => Moment.stepStretch? ⟨now, actor, 0⟩ w
  | .asleep pause rest loops index =>
    match Leaf.wake w (w.roomBelow loops.length) now actor pause with
    | .finished w _ => some ⟨⟨now, actor, index⟩, loops, w, rest⟩
    | _ => none
  | .turn loops index =>
    match w.collide (w.passRoom loops.length) with
    | (w, _, .ok _) => Moment.nextStretch? ⟨now, actor, index⟩ w loops
    | _ => none

def visits (now : α) (actor : Int) (w : World α) (place : Place α) : List (Site α) :=
  match place.stretch? now actor w with
  | none => []
  | some e => e.moment.sequenceVisits e.loops e.world e.blocks

/-- The top-level block that a leg comes to: the next one of the program that the actor then holds, unless the
run is still inside of another. -/
def due (actor : Int) (w : World α) : Place α → Option (Block α)
  | .fresh => (w.store.program? actor).bind (·[0]?)
  | .turn [] index =>
    ((w.collide (w.passRoom 0)).1.store.program? actor).bind (·[index + 1]?)
  | _ => none

/-- The second place is the first one, asleep inside of the same block for another time. -/
def Dozes : Place α → Place α → Prop
  | .asleep _ rest loops index, place => ∃ pause, place = .asleep pause rest loops index
  | _, _ => False

end Place

/-- How an activity that starts at a place enters the program. -/
inductive Activity.Enters (actor : Int) (place : Place α) (a : Activity α) : Option (Stretch α) → Prop where
  | nowhere (quiet : dispatches a.out = [])
      (stays : ∀ place', a.halt.place? = some place' → place.Dozes place') : Enters actor place a none
  | through {e : Stretch α} (said : List (Signal α)) (quiet : dispatches said = [])
      (goes : a = (e.moment.sequence e.loops e.world e.blocks).after said)
      (own : e.moment.actor = actor) : Enters actor place a (some e)

namespace Activity

private theorem Enters.after {actor : Int} {place : Place α} {a : Activity α} {e : Option (Stretch α)}
    (h : a.Enters actor place e) {out : List (Signal α)} (hout : dispatches out = []) :
    (a.after out).Enters actor place e := by
  cases h with
  | nowhere quiet stays =>
    refine .nowhere ?_ stays
    rw [Activity.after, dispatches_append, hout, quiet]
    rfl
  | through said quiet goes own =>
    refine .through (out ++ said) ?_ ?_ own
    · rw [dispatches_append, hout, quiet]
      rfl
    · rw [goes]
      simp only [Activity.after, List.append_assoc]

private theorem fail_enters (actor : Int) (place : Place α) (w : World α) :
    (fail w actor).Enters actor place none :=
  .nowhere rfl (by rintro _ ⟨⟩)

end Activity

private theorem Moment.step_enters (m : Moment α) (place : Place α) (w : World α) :
    (step m w).Enters m.actor place (stepStretch? m w) := by
  rcases step_cases m w with ⟨ha, hs⟩ | ⟨a, ha, hnone, hs⟩ | ⟨a, block, w₁, said, ha, hb, written, hs⟩
  · rw [hs]
    simp only [stepStretch?, ha]
    exact Activity.fail_enters _ _ w
  · rw [hs]
    simp only [stepStretch?, ha, hnone]
    exact .nowhere rfl (by rintro _ ⟨⟩)
  · rw [hs]
    simp only [stepStretch?, ha, hb, written]
    refine .through said ?_ rfl rfl
    obtain ⟨-, -, -, rfl⟩ := World.write_eq_ok.mp written
    rfl

private theorem Moment.next_enters (m : Moment α) (place : Place α) (w : World α) (loops : List (Loop α)) :
    (next m w loops).Enters m.actor place (nextStretch? m w loops) := by
  cases loops with
  | nil => exact step_enters { m with index := m.index + 1 } place w
  | cons l loops =>
    cases hleft : l.left with
    | zero =>
      simp only [next, nextStretch?, hleft]
      exact .through [] rfl rfl rfl
    | succ left =>
      simp only [next, nextStretch?, hleft]
      exact .through [] rfl rfl rfl

/-- Every leg goes through at most one sequence, and reaches no block before it. -/
theorem Place.resume_enters (now : α) (actor : Int) (w : World α) (place : Place α) :
    (place.resume now actor w).Enters actor place (place.stretch? now actor w) := by
  cases place with
  | fresh => exact Moment.step_enters ⟨now, actor, 0⟩ _ w
  | asleep pause rest loops index =>
    have hquiet := Leaf.dispatches_wake w (w.roomBelow loops.length) now actor pause
    simp only [Place.resume, stretch?]
    cases hwake : Leaf.wake w (w.roomBelow loops.length) now actor pause with
    | finished w' said =>
      rw [hwake] at hquiet
      exact .through said hquiet rfl rfl
    | sleeping w' said seconds pause' =>
      rw [hwake] at hquiet
      refine .nowhere hquiet ?_
      rintro place' ⟨⟩
      exact ⟨pause', rfl⟩
    | failed w' said =>
      rw [hwake] at hquiet
      exact (Activity.fail_enters actor _ w').after hquiet
  | turn loops index =>
    have hquiet : dispatches (.pass actor :: (w.collide (w.passRoom loops.length)).2.1) = [] := by
      have hplain := dispatches_plain (World.collide_plain w (w.passRoom loops.length))
      exact hplain
    rw [resume_turn]
    apply Activity.Enters.after _ hquiet
    simp only [afterPass, stretch?]
    obtain ⟨w', out, result⟩ := w.collide (w.passRoom loops.length)
    cases result with
    | error cause => exact Activity.fail_enters actor _ w'
    | ok pairs => exact Moment.next_enters ⟨now, actor, index⟩ _ w' loops

namespace Place

private theorem resume_tells (now : α) (actor : Int) (w : World α) (place : Place α) :
    dispatches (place.resume now actor w).out <+:
      (place.visits now actor w).map fun v => (actor, v.block) := by
  have henters := place.resume_enters now actor w
  unfold visits
  generalize place.stretch? now actor w = stretch at henters
  cases henters with
  | nowhere quiet stays =>
    rw [quiet]
    exact List.nil_prefix
  | @through e said quiet goes own =>
    rw [goes, Activity.after, dispatches_append, quiet, ← own]
    exact (Moment.visits_told e.moment).2 e.blocks e.loops e.world

/-- Where a run is suspended that has come to a top-level block, if it has come to one. -/
def Aboard (top : Option (Block α)) (place : Place α) : Prop :=
  match top with
  | none => place = .fresh
  | some top => place.Inside top

private theorem stepStretch_due {m : Moment α} {w : World α} {e : Stretch α} (he : m.stepStretch? w = some e) :
    ∃ top, (w.store.program? m.actor).bind (·[m.index]?) = some top ∧ top.Holds e.loops e.blocks := by
  unfold Moment.stepStretch? at he
  split at he
  · cases he
  · rename_i a ha
    split at he
    · cases he
    · rename_i block hblock
      split at he
      · cases he
      · cases he
        refine ⟨block, ?_, .whole⟩
        simp only [Store.program?, ha, Option.map_some, Option.bind_some, hblock]

private theorem stretch_inside {now : α} {actor : Int} {w : World α} {top : Option (Block α)} {place : Place α}
    (h : place.Aboard top) {e : Stretch α} (he : place.stretch? now actor w = some e) :
    ∃ b, (place.due actor w).or top = some b ∧ b.Holds e.loops e.blocks := by
  cases place with
  | fresh =>
    obtain ⟨b, hdue, hholds⟩ := stepStretch_due he
    exact ⟨b, by rw [due, hdue, Option.some_or], hholds⟩
  | asleep pause rest loops index =>
    cases top with
    | none => cases h
    | some b =>
      simp only [stretch?] at he
      split at he
      · cases he
        exact ⟨b, rfl, h⟩
      · cases he
  | turn loops index =>
    -- Only a turn outside of all loops comes to another top-level block.
    simp only [stretch?] at he
    split at he
    · rename_i w' out pairs hpass
      cases loops with
      | nil =>
        obtain ⟨b, hdue, hholds⟩ := stepStretch_due he
        refine ⟨b, ?_, hholds⟩
        have hworld : (w.collide (w.passRoom 0)).1 = w' := congrArg Prod.fst hpass
        rw [due, hworld, hdue, Option.some_or]
      | cons l loops =>
        cases top with
        | none => cases h
        | some b =>
          obtain ⟨p, hp⟩ := h
          refine ⟨b, rfl, ?_⟩
          simp only [Moment.nextStretch?] at he
          split at he
          · cases he
            exact hp.leave
          · cases he
            exact hp.again _
    · cases he

private theorem resume_aboard {now : α} {actor : Int} {w : World α} {top : Option (Block α)}
    {place place' : Place α} (h : place.Aboard top)
    (hplace : (place.resume now actor w).halt.place? = some place') :
    place'.Aboard ((place.due actor w).or top) := by
  have henters := place.resume_enters now actor w
  cases hstretch : place.stretch? now actor w with
  | none =>
    rw [hstretch] at henters
    cases henters with
    | nowhere quiet stays =>
      have hdozes := stays place' hplace
      cases place with
      | fresh => exact hdozes.elim
      | turn loops index => exact hdozes.elim
      | asleep pause rest loops index =>
        obtain ⟨pause', rfl⟩ := hdozes
        cases top with
        | none => cases h
        | some b => exact h
  | some e =>
    rw [hstretch] at henters
    cases henters with
    | through said quiet goes own =>
      obtain ⟨b, htop, hholds⟩ := stretch_inside h hstretch
      rw [htop]
      rw [goes] at hplace
      exact (e.moment.sequence_inside b).2 e.blocks e.loops e.world place' hholds hplace

end Place

def Engine.visits (e : Engine) (w : World α) (now : α) (place : Place α) : List (Site α) :=
  if e.cancelRequested then [] else place.visits now e.actor w

/-- The run of an actor has been resumed any number of times, each time at any time and in any world, and is
now suspended at a place. The block is the top-level block that it came to last. -/
inductive Voyage (actor : Int) : Option (Block α) → Place α → Prop where
  | start : Voyage actor none .fresh
  | leg {top : Option (Block α)} {place place' : Place α} (before : Voyage actor top place) (e : Engine)
      (own : e.actor = actor) (w : World α) (now : α)
      (suspended : (e.resume w now place).halt.place? = some place') :
      Voyage actor ((place.due actor w).or top) place'

private theorem Voyage.aboard {actor : Int} {top : Option (Block α)} {place : Place α}
    (h : Voyage actor top place) : place.Aboard top := by
  induction h with
  | start => exact rfl
  | leg before e own w now suspended ih =>
    rw [Engine.resume_eq] at suspended
    split at suspended
    · cases suspended
    · rw [own] at suspended
      exact Place.resume_aboard ih suspended

namespace Stage

private theorem dispatches_resume {s : Stage α} {t : Task α} {e : Engine} (engine : s.engine? t.engine = some e) :
    dispatches (s.resume t).2 = dispatches (e.resume s.world s.now t.place).out := by
  unfold resume
  simp only [engine]
  split
  · rfl
  · rfl
  · rw [dispatches_append, dispatches_plain (finish_plain _ _ _), List.append_nil]

/-- Between two suspensions a run reaches no site twice, and only sites of the top-level block that it came to
last. So the number of blocks that are dispatched in one turn is bounded by the size of that block. -/
theorem turn_reaches_sites_once {actor : Int} {top : Option (Block α)} {s : Stage α} {t : Task α}
    {e : Engine} (voyage : Voyage actor top t.place) (engine : s.engine? t.engine = some e)
    (own : e.actor = actor) :
    let visits := e.visits s.world s.now t.place
    let last := (t.place.due actor s.world).or top
    visits.Sublist (last.elim [] Block.tree) ∧
      (visits.map Site.spot).Nodup ∧
      dispatches (s.resume t).2 <+: visits.map (fun v => (actor, v.block)) ∧
      (dispatches (s.resume t).2).length ≤ last.elim 0 Block.size := by
  subst own
  intro visits last
  have hsites : visits.Sublist (last.elim [] Block.tree) := by
    simp only [visits, Engine.visits, Place.visits]
    split
    · exact List.nil_sublist _
    · split
      · exact List.nil_sublist _
      · rename_i stretch hstretch
        obtain ⟨b, hlast, hholds⟩ := Place.stretch_inside voyage.aboard hstretch
        simp only [last, hlast, Option.elim_some]
        exact ((Moment.visits_sublist stretch.moment).2 _ _ _).trans hholds.sites
  have htold : dispatches (s.resume t).2 <+: visits.map (fun v => (e.actor, v.block)) := by
    rw [dispatches_resume engine, Engine.resume_eq]
    simp only [visits, Engine.visits]
    split
    · exact List.nil_prefix
    · exact Place.resume_tells s.now e.actor s.world t.place
  refine ⟨hsites, ?_, htold, ?_⟩
  · cases hlast : last with
    | none =>
      rw [hlast] at hsites
      rw [List.sublist_nil.mp hsites]
      exact List.nodup_nil
    | some b =>
      rw [hlast] at hsites
      exact (hsites.map _).nodup (sites_nodup.1 b [0])
  · calc (dispatches (s.resume t).2).length
      _ ≤ visits.length := by simpa using htold.length_le
      _ ≤ (last.elim [] Block.tree).length := hsites.length_le
      _ = last.elim 0 Block.size := by
        cases last with
        | none => rfl
        | some b => exact sites_length.1 b [0]

/-! ## Every run is on a voyage -/

private theorem live_playActor {s : Stage α} {actor : Int} {t : Task α} (ht : t ∈ (s.playActor actor).stage.live) :
    t ∈ s.live ∨ t.place = .fresh := by
  rcases playActor_cases s actor with hnot | ⟨a, w, said, hp, hw⟩
  · rcases (playActor_of_not hnot).1 with hstage | hstage
    · rw [hstage] at ht
      exact .inl ht
    · rw [hstage] at ht
      exact .inl ht
  · rw [playActor_of_playable hp hw] at ht
    rcases List.mem_append.mp ht with ht | ht
    · rcases List.mem_append.mp ht with ht | ht
      · exact .inl (List.mem_append_left _ ht)
      · rw [List.mem_singleton.mp ht]
        exact .inr rfl
    · exact .inl (List.mem_append_right _ ht)

private theorem live_playEach {s : Stage α} {actors : List Int} {t : Task α}
    (ht : t ∈ (playEach actors s).stage.live) : t ∈ s.live ∨ t.place = .fresh := by
  induction actors generalizing s with
  | nil => exact .inl ht
  | cons actor actors ih =>
    rcases ih ht with ht | hfresh
    · exact live_playActor ht
    · exact .inr hfresh

private theorem live_stopped {s : Stage α} (h : s.Orderly) {actors : List Int} (hnodup : actors.Nodup)
    {t : Task α} (ht : t ∈ (s.stop actors).stage.live) : t ∈ s.live := by
  by_cases hsome : actors.filter s.players.contains = []
  · rw [stop_of_none hsome] at ht
    exact ht
  · obtain ⟨w, out, hs, -, -⟩ := stop_spec h hnodup hsome
    rw [hs] at ht
    rcases List.mem_append.mp ht with ht | ht
    · exact List.mem_append_left _ (List.mem_filter.mp ht).1
    · obtain ⟨x, hx, rfl⟩ := List.mem_map.mp ht
      exact List.mem_append_right _ (List.mem_map_of_mem (List.mem_filter.mp hx).1)

private theorem live_turn {s : Stage α} {first t : Task α} {actor : Int}
    (h : Roster s.world s.engines (first :: s.live)) (hown : first.engine = .player actor)
    (ht : t ∈ (s.resume first).1.live) :
    t ∈ s.live ∨ t.engine = first.engine ∧
      (first.place.resume s.now actor s.world).halt.place? = some t.place := by
  rcases resume_cases h hown rfl with
    ⟨seconds, place, hhalt, hs⟩ | ⟨place, hhalt, hs⟩ | ⟨outcome, w, said, hhalt, hwrite, hs⟩
  · rw [hs] at ht
    simp only [live, List.map_append, List.map_cons, List.map_nil, ← List.append_assoc] at ht
    rcases List.mem_append.mp ht with ht | ht
    · exact .inl ht
    · rw [List.mem_singleton.mp ht, hhalt]
      exact .inr ⟨rfl, rfl⟩
  · rw [hs] at ht
    rcases List.mem_append.mp ht with ht | ht
    · rcases List.mem_append.mp ht with ht | ht
      · exact .inl (List.mem_append_left _ ht)
      · rw [List.mem_singleton.mp ht, hhalt]
        exact .inr ⟨rfl, rfl⟩
    · exact .inl (List.mem_append_right _ ht)
  · rw [hs] at ht
    exact .inl ht

/-- A task that is live after an act was live before, or has just been put into play, or is where its own turn
has left it. -/
theorem live_perform {s : Stage α} (h : s.Orderly) (a : Act α) {t : Task α} (ht : t ∈ (s.perform a).1.live) :
    t ∈ s.live ∨ t.place = .fresh ∨
      ∃ first rest actor, a = .beat .turn ∧ s.ready = first :: rest ∧ first.engine = .player actor ∧
        t.engine = first.engine ∧
        (first.place.resume s.now actor s.world).halt.place? = some t.place := by
  cases a with
  | beat b =>
    cases b with
    | retire => exact .inl ht
    | clock time =>
      simp only [Stage.perform, beat] at ht
      split at ht
      · exact .inl ht
      · exact .inl ht
    | wake =>
      simp only [Stage.perform, beat] at ht
      split at ht
      · rename_i time hready hnext
        have hperm := (List.filter_append_perm (fun x => Scalar.eq x.wake time) s.sleepers).map (·.task)
        simp only [live, wakeAt, hready, List.nil_append, ← List.map_append] at ht
        refine .inl ?_
        simp only [live, hready, List.nil_append]
        exact hperm.mem_iff.mp ht
      · exact .inl ht
    | turn =>
      simp only [Stage.perform, beat] at ht
      split at ht
      · exact .inl ht
      · rename_i first rest hready
        have hroster := h.atTurn hready
        obtain ⟨⟨other, hother⟩, -⟩ := h.tasks first (by simp [live, hready])
        rcases live_turn hroster hother ht with hmem | ⟨hengine, hplace⟩
        · refine .inl ?_
          simp only [live, hready, List.cons_append]
          exact List.mem_cons_of_mem _ hmem
        · exact .inr (.inr ⟨first, rest, other, rfl, hready, hother, hengine, hplace⟩)
  | playAll =>
    simp only [Stage.perform, Reply.effect, playAll] at ht
    split at ht
    · exact (live_playEach ht).imp_right .inl
    · exact (live_playEach ht).imp_right .inl
  | playActor other => exact (live_playActor ht).imp_right .inl
  | stopAll => exact .inl (live_stopped h h.players_nodup ht)
  | stopActor other =>
    simp only [Stage.perform, Reply.effect, stopActor] at ht
    split at ht
    · exact .inl ht
    · exact .inl (live_stopped h (List.nodup_singleton other) ht)
  | reset => exact .inl (live_stopped h h.players_nodup ht)
  | init | addActor _ | deleteActor _ | selectActor _ | submit _ _ _ _ | editInput _ _ _ _
    | reorder _ _ _ | removeBlock _ _ | duplicate _ _ | clearProgram _ =>
    rw [live_sameTasks (perform_sameTasks s rfl)] at ht
    exact .inl ht

/-- Every task on a stage is on the voyage of a run. -/
def Sails (s : Stage α) : Prop :=
  ∀ t ∈ s.live, ∀ actor, t.engine = .player actor → ∃ top, Voyage actor top t.place

private theorem Sails.perform {s : Stage α} (hs : s.Sails) (h : s.Orderly) (a : Act α) :
    (s.perform a).1.Sails := by
  intro t ht actor hown
  rcases live_perform h a ht with hmem | hfresh | ⟨first, rest, other, -, hready, hother, hengine, hplace⟩
  · exact hs t hmem actor hown
  · exact ⟨none, hfresh ▸ .start⟩
  · have hsame : other = actor := by
      rw [hother, hown] at hengine
      exact (EngineId.player.inj hengine).symm
    subst hsame
    obtain ⟨top, hvoyage⟩ := hs first (by simp [live, hready]) other hother
    refine ⟨_, .leg hvoyage (.underWay other) rfl s.world s.now ?_⟩
    rw [Engine.resume_eq]
    exact hplace

private theorem Reachable.sails {s : Stage α} (h : Reachable s) : s.Sails := by
  induction h with
  | empty hempty =>
    intro t ht
    simp [live, hempty.ready, hempty.sleepers] at ht
  | act h a ih => exact ih.perform h.orderly a

/-- A stage on which the first actor runs a loop of loops that is to go round a billion times, and has taken two
turns. -/
def whirling : Stage Float :=
  ((new Settings.standard ⟨[], 0⟩).enact
    [.init, .submit 1 "repeat" [("times", .int 1000000000)] none,
      .submit 1 "repeat" [("times", .int 1)] (some "b1"),
      .submit 1 "set_color" [] (some "b2"), .submit 1 "set_color" [] (some "b1"), .playAll,
      .beat .turn, .beat .turn]).1

theorem whirling_turn_reaches_sites_once :
    ∃ (t : Task Float) (rest : List (Task Float)) (e : Engine) (top : Option (Block Float)),
      whirling.ready = t :: rest ∧ Voyage 1 top t.place ∧ whirling.engine? t.engine = some e ∧ e.actor = 1 ∧
      ((e.visits whirling.world whirling.now t.place).map Site.spot).Nodup ∧
      (dispatches (whirling.resume t).2).length ≤ ((t.place.due 1 whirling.world).or top).elim 0 Block.size ∧
      (dispatches (whirling.resume t).2).map (·.2.id) = ["b2", "b3"] := by
  have hreachable : Reachable whirling := (Reachable.empty (new_isEmpty _ _)).enact _
  obtain ⟨t, rest, hready⟩ := List.exists_cons_of_ne_nil
    (List.ne_nil_of_length_pos (by decide +kernel : 0 < whirling.ready.length))
  have hlive : t ∈ whirling.live := by simp [live, hready]
  have hown : t.engine = .player 1 := by
    have hnames : whirling.ready.map (·.engine) = [.player 1] := by decide +kernel
    rw [hready] at hnames
    exact (List.cons.inj hnames).1
  have hids : whirling.ready.map (fun t => (dispatches (whirling.resume t).2).map (·.2.id)) = [["b2", "b3"]] := by
    decide +kernel
  rw [hready] at hids
  obtain ⟨top, hvoyage⟩ := hreachable.sails t hlive 1 hown
  have hengine : whirling.engine? t.engine = some (.underWay 1) := by
    obtain ⟨_, _, -, hlookup, -⟩ := hreachable.orderly.busy_of_task hlive hown
    rw [hown]
    exact hlookup
  have hbound := turn_reaches_sites_once hvoyage hengine rfl
  rw [List.map_cons, List.cons.injEq] at hids
  exact ⟨t, rest, _, top, hready, hvoyage, hengine, rfl, hbound.2.1, hbound.2.2.2, hids.1⟩

end Stage

end SpriteStage
