import SpriteStage.Proofs.Ownership
/-!
# Unrolled programs

A program with loops says the same as a long sequence without them. `unroll` is that sequence, and
`itinerary` is the same with the collision passes in between: one after each iteration of a loop,
and one after each top-level block.
-/
namespace SpriteStage

variable {α : Type} [Scalar α]

namespace Catalog

/-- The values that a block runs with, or the reason why there are none; nothing at all if the block is
skipped. -/
def reading (c : Catalog α) (typeId : String) (raw : Fields α) : Option (Except Error (Fields α)) :=
  if Instruction.known.contains typeId then (c.find? typeId).map fun t => (t.resolve raw).2 else none

/-- How often a loop with some resolved inputs runs its children. -/
def times (inputs : Except Error (Fields α)) : Nat :=
  match inputs with
  | .error _ => 0
  | .ok inputs => ((Instruction.number? inputs "times").map fun n => n.truncate.toNat).getD 0

end Catalog

/-- Something that a run does and that leaves a mark: it starts a block that is no loop, or it calls for a
collision pass. -/
inductive Mark (α : Type) where
  | leaf (block : Block α) (inputs : Except Error (Fields α))
  | pass

mutual

def Block.unroll (c : Catalog α) : Block α → List (Block α)
  | ⟨id, typeId, raw, children⟩ =>
    match c.reading typeId raw with
    | none => []
    | some inputs =>
      if typeId = "repeat" then
        (List.replicate (Catalog.times inputs) (Program.unroll c children)).flatten
      else [⟨id, typeId, raw, children⟩]

/-- The blocks that a sequence comes to, from left to right. -/
def Program.unroll (c : Catalog α) : List (Block α) → List (Block α)
  | [] => []
  | b :: rest => Block.unroll c b ++ Program.unroll c rest

end

mutual

/-- The marks that a block leaves. A loop without children has no iterations. -/
def Block.route (c : Catalog α) : Block α → List (Mark α)
  | ⟨id, typeId, raw, children⟩ =>
    match c.reading typeId raw with
    | none => []
    | some inputs =>
      if typeId = "repeat" then
        if children.isEmpty then []
        else (List.replicate (Catalog.times inputs) (Program.route c children ++ [.pass])).flatten
      else [.leaf ⟨id, typeId, raw, children⟩ inputs]

def Program.route (c : Catalog α) : List (Block α) → List (Mark α)
  | [] => []
  | b :: rest => Block.route c b ++ Program.route c rest

end

/-- The marks that a whole program leaves. -/
def Program.itinerary (c : Catalog α) : Program α → List (Mark α)
  | [] => []
  | b :: rest => Block.route c b ++ .pass :: Program.itinerary c rest

namespace Mark

def block? : Mark α → Option (Block α × Except Error (Fields α))
  | .leaf b inputs => some (b, inputs)
  | .pass => none

end Mark

def Catalog.read (c : Catalog α) (b : Block α) : Block α × Except Error (Fields α) :=
  (b, (c.reading b.typeId b.inputs).getD (.error .wrongType))

private theorem Program.filterMap_flatten_replicate {β γ : Type} (f : β → Option γ) (n : Nat) (l : List β) :
    (List.replicate n l).flatten.filterMap f = (List.replicate n (l.filterMap f)).flatten := by
  induction n with
  | zero => rfl
  | succ n ih => simp [List.replicate_succ, ih]

private theorem route_block? (c : Catalog α) :
    (∀ b : Block α, (Block.route c b).filterMap Mark.block? = (Block.unroll c b).map c.read) ∧
    ∀ p : Program α, (Program.route c p).filterMap Mark.block? = (Program.unroll c p).map c.read := by
  apply Block.induction
  case block =>
    intro id typeId raw children ih
    rw [Block.route, Block.unroll]
    cases hread : c.reading typeId raw with
    | none => rfl
    | some inputs =>
      dsimp only
      split
      · split
        · rename_i hempty
          have hnone : children = [] := by simpa using hempty
          subst hnone
          simp [Program.unroll]
        · have hpass : [Mark.pass].filterMap (@Mark.block? α) = [] := rfl
          rw [Program.filterMap_flatten_replicate, List.filterMap_append, ih, hpass, List.append_nil,
            List.map_flatten, List.map_replicate]
      · simp [Mark.block?, Catalog.read, hread]
  case nil => rfl
  case cons =>
    intro b rest hb hrest
    rw [Program.route, Program.unroll, List.filterMap_append, hb, hrest, List.map_append]

theorem itinerary_block? (c : Catalog α) (p : Program α) :
    (Program.itinerary c p).filterMap Mark.block? = (Program.unroll c p).map c.read := by
  induction p with
  | nil => rfl
  | cons b rest ih =>
    rw [Program.itinerary, Program.unroll, List.filterMap_append, (route_block? c).1, List.map_append,
      ← ih]
    rfl

def Signal.mark? (actor : Int) : Signal α → Option (Mark α)
  | .dispatched a b (some inputs) =>
    if a = actor ∧ b.typeId ≠ "repeat" then some (.leaf b (.ok inputs)) else none
  | .pass a => if a = actor then some .pass else none
  | _ => none

def marks (actor : Int) (out : List (Signal α)) : List (Mark α) := out.filterMap (Signal.mark? actor)

section Marks

variable {actor : Int}

omit [Scalar α] in
@[simp]
theorem marks_append (actor : Int) (out more : List (Signal α)) :
    marks actor (out ++ more) = marks actor out ++ marks actor more :=
  List.filterMap_append

omit [Scalar α] in
theorem marks_plain {out : List (Signal α)} (h : ∀ x ∈ out, x.Plain) : marks actor out = [] := by
  rw [marks, List.filterMap_eq_nil_iff]
  intro x hx
  have hplain := h x hx
  cases x with
  | event e => rfl
  | notice n => rfl
  | dispatched a b inputs => exact hplain.elim
  | pass a => exact hplain.elim

omit [Scalar α] in
theorem marks_noted (noted : List (Notice α)) : marks actor (noted.map .notice) = [] := by
  simp [marks, List.filterMap_map, Function.comp_def, Signal.mark?]

omit [Scalar α] in
theorem marks_events {out : List (Signal α)} (h : ∀ x ∈ out, ∃ e, x = .event e) :
    marks actor out = [] := by
  apply marks_plain
  intro x hx
  obtain ⟨e, rfl⟩ := h x hx
  trivial

omit [Scalar α] in
theorem marks_other {other : Int} (hne : other ≠ actor) {out : List (Signal α)}
    (h : ∀ x ∈ out, x.Of other) : marks actor out = [] := by
  rw [marks, List.filterMap_eq_nil_iff]
  intro x hx
  have hof := h x hx
  cases x with
  | event e => rfl
  | notice n => rfl
  | dispatched a b inputs =>
    have ha : a ≠ actor := fun heq => hne (hof.symm.trans heq)
    cases inputs <;> simp [Signal.mark?, ha]
  | pass a =>
    have ha : a ≠ actor := fun heq => hne (hof.symm.trans heq)
    simp [Signal.mark?, ha]

end Marks

/-- The marks ahead after the pass that a run waits for: further iterations of the innermost loop, what
follows it, and so on outwards to the top-level blocks. -/
def ahead (c : Catalog α) (p : Program α) (index : Nat) : List (Loop α) → List (Mark α)
  | [] => Program.itinerary c (p.drop (index + 1))
  | l :: loops =>
    (List.replicate l.left (Program.route c l.body ++ [.pass])).flatten ++
      (Program.route c l.after ++ .pass :: ahead c p index loops)

/-- The marks ahead of a run of a program that is suspended somewhere. -/
def Place.ahead (c : Catalog α) (p : Program α) : Place α → List (Mark α)
  | .fresh => Program.itinerary c p
  | .asleep _ rest loops index => Program.route c rest ++ .pass :: SpriteStage.ahead c p index loops
  | .turn loops index => .pass :: SpriteStage.ahead c p index loops

/-- Some marks, and then those ahead where an activity ends, are the ones that were to be left. A run that is
complete has left all of them; one that was broken off has left the first ones. -/
def Halt.Meets (c : Catalog α) (p : Program α) (left whole : List (Mark α)) : Halt α → Prop
  | .sleep _ place => left ++ place.ahead c p = whole
  | .pass place => left ++ place.ahead c p = whole
  | .done .completed => left = whole
  | .done _ => left <+: whole

theorem Halt.Meets.beginning {c : Catalog α} {p : Program α} {left whole : List (Mark α)} {outcome : Phase}
    (h : (Halt.done outcome).Meets c p left whole) : left <+: whole := by
  cases outcome with
  | completed =>
    have heq : left = whole := h
    exact heq ▸ List.prefix_rfl
  | idle | running | cancelled => exact h

/-- An activity that leaves the first of the marks that were to be left. -/
def Activity.Keeps (c : Catalog α) (p : Program α) (actor : Int) (whole : List (Mark α))
    (a : Activity α) : Prop :=
  a.halt.Meets c p (marks actor a.out) whole

namespace Activity

variable {c : Catalog α} {p : Program α} {actor : Int} {whole : List (Mark α)} {a : Activity α}

private theorem Keeps.after (h : a.Keeps c p actor whole) (out : List (Signal α)) :
    (a.after out).Keeps c p actor (marks actor out ++ whole) := by
  unfold Keeps at h ⊢
  cases hhalt : a.halt with
  | sleep seconds place =>
    simp only [Activity.after, hhalt, Halt.Meets, marks_append, List.append_assoc] at h ⊢
    rw [h]
  | pass place =>
    simp only [Activity.after, hhalt, Halt.Meets, marks_append, List.append_assoc] at h ⊢
    rw [h]
  | done outcome =>
    cases outcome with
    | completed =>
      simp only [Activity.after, hhalt, Halt.Meets, marks_append] at h ⊢
      rw [h]
    | _ =>
      simp only [Activity.after, hhalt, Halt.Meets, marks_append, List.prefix_append_right_inj] at h ⊢
      exact h

private theorem fail_keeps (w : World α) (actor : Int) (out : List (Signal α)) (h : marks actor out <+: whole) :
    ((fail w actor).after out).Keeps c p actor whole := by
  simp only [Keeps, fail, Activity.after, Halt.Meets, marks_append]
  have hsilent : marks actor [Signal.notice (.programFailed actor)] = ([] : List (Mark α)) := rfl
  rw [hsilent, List.append_nil]
  exact h

end Activity

namespace Instruction

private theorem ofInputs?_loop {typeId : String} {inputs : Fields α} {n : Nat}
    (h : ofInputs? typeId inputs = some (.loop n)) :
    typeId = "repeat" ∧ Catalog.times (.ok inputs) = n := by
  unfold ofInputs? at h
  split at h
  case h_9 =>
    obtain ⟨x, hx, hn⟩ := Option.map_eq_some_iff.mp h
    cases hn
    exact ⟨rfl, by simp [Catalog.times, hx]⟩
  all_goals simp [Option.bind_eq_some_iff] at h

theorem ofInputs?_repeat {inputs : Fields α} {i : Instruction α}
    (h : ofInputs? "repeat" inputs = some i) : ∃ n, i = .loop n := by
  simp only [ofInputs?] at h
  obtain ⟨x, -, rfl⟩ := Option.map_eq_some_iff.mp h
  exact ⟨_, rfl⟩

end Instruction

namespace Moment

theorem reading_of_inputs? {w : World α} {typeId : String} {raw : Fields α} {noted : List (Notice α)}
    {resolved : Except Error (Fields α)} (h : inputs? w typeId raw = some (noted, resolved)) :
    w.catalog.reading typeId raw = some resolved := by
  unfold inputs? at h
  unfold Catalog.reading
  split at h
  · rename_i hknown
    rw [if_pos hknown]
    obtain ⟨t, ht, hresolve⟩ := Option.map_eq_some_iff.mp h
    simp [ht, hresolve]
  · cases h

theorem reading_of_skipped {w : World α} {typeId : String} {raw : Fields α}
    (h : inputs? w typeId raw = none) : w.catalog.reading typeId raw = none := by
  unfold inputs? at h
  unfold Catalog.reading
  split at h
  · rename_i hknown
    rw [if_pos hknown]
    simpa using h
  · rename_i hknown
    rw [if_neg hknown]

omit [Scalar α] in
theorem marks_announced (m : Moment α) (b : Block α) (noted : List (Notice α)) (inputs : Fields α) :
    marks m.actor (m.announced b noted inputs) =
      if b.typeId = "repeat" then [] else [.leaf b (.ok inputs)] := by
  rw [announced, marks_append, marks_noted]
  by_cases h : b.typeId = "repeat" <;> simp [marks, Signal.mark?, h]

/-- The marks that are ahead while a sequence inside of some loops is run. -/
def todo (m : Moment α) (c : Catalog α) (p : Program α) (rest : Program α) (loops : List (Loop α)) :
    List (Mark α) :=
  Program.route c rest ++ .pass :: ahead c p m.index loops

/-- What reaching a block comes to: the block's own marks, and the rest if the activity ends inside it. -/
def PassedOn (m : Moment α) (c : Catalog α) (p : Program α) (rest : Program α) (loops : List (Loop α))
    (b : Block α) : Activity α ⊕ World α × List (Signal α) → Prop
  | .inl a => a.Keeps c p m.actor (Block.route c b ++ m.todo c p rest loops)
  | .inr (w, out) => w.catalog = c ∧ marks m.actor out = Block.route c b

private theorem afterLeaf_passedOn (m : Moment α) (c : Catalog α) (p : Program α) (rest : Program α)
    (loops : List (Loop α)) {b : Block α} {w : World α} (hc : w.catalog = c) {out : List (Signal α)}
    (hout : marks m.actor out = Block.route c b) {leaf : Leaf α} (h : leaf.Proper m.actor w) :
    PassedOn m c p rest loops b (m.afterLeaf rest loops out leaf) := by
  have hevents : ∀ {more : List (Signal α)}, (∀ x ∈ more, ∃ e, x = .event e) →
      marks m.actor (out ++ more) = Block.route c b := by
    intro more hmore
    rw [marks_append, hout, marks_events hmore, List.append_nil]
  cases leaf with
  | finished w' more => exact ⟨h.conduct.frame.catalog.trans hc, hevents h.events⟩
  | sleeping w' more seconds pause =>
    have hmarks : marks m.actor (out ++ more) = Block.route c b := by
      cases pause with
      | rest => exact hevents h.events
      | frame motion span => exact hevents h.events
      | bubble =>
        obtain ⟨text, shown⟩ := h
        obtain ⟨-, -, -, rfl⟩ := World.write_eq_ok.mp shown
        exact hevents (by simp)
    simp only [PassedOn, afterLeaf, Activity.Keeps, Halt.Meets, hmarks, Place.ahead, todo]
  | failed w' more =>
    apply Activity.fail_keeps
    rw [hevents h.events]
    exact List.prefix_append _ _

private theorem dispatch_sequence_keeps (m : Moment α) (c : Catalog α) (p : Program α) :
    (∀ (b : Block α) rest loops w, w.catalog = c →
      PassedOn m c p rest loops b (dispatch m rest loops w b)) ∧
    ∀ (q : Program α) loops w, w.catalog = c →
      (sequence m loops w q).Keeps c p m.actor (m.todo c p q loops) := by
  apply Block.induction
  case block =>
    intro id typeId raw children ih rest loops w hc
    have hreaches := dispatch_reaches m rest loops w ⟨id, typeId, raw, children⟩
    generalize dispatch m rest loops w ⟨id, typeId, raw, children⟩ = result at hreaches
    cases hreaches with
    | refused noted =>
      apply Activity.fail_keeps
      rw [marks_noted]
      exact List.nil_prefix
    | skipped unknown =>
      have hnone := reading_of_skipped unknown
      rw [hc] at hnone
      exact ⟨hc, by simp [Block.route, hnone, marks, Signal.mark?]⟩
    | broken resolved none =>
      apply Activity.fail_keeps
      have hread := reading_of_inputs? resolved
      rw [hc] at hread
      rw [marks_announced, Block.route, hread]
      dsimp only
      split
      · exact List.nil_prefix
      · exact List.prefix_append _ _
    | idle resolved loop nothing =>
      have hread := reading_of_inputs? resolved
      rw [hc] at hread
      obtain ⟨hrepeat, htimes⟩ := Instruction.ofInputs?_loop loop
      dsimp only at hread hrepeat nothing
      subst hrepeat
      refine ⟨hc, ?_⟩
      rw [marks_announced, Block.route, hread]
      rcases nothing with hnone | hzero
      · simp [hnone]
      · simp [htimes, hzero]
    | enter resolved loop something =>
      rename_i noted inputs left
      have hread := reading_of_inputs? resolved
      rw [hc] at hread
      obtain ⟨hrepeat, htimes⟩ := Instruction.ofInputs?_loop loop
      dsimp only at hread hrepeat something
      subst hrepeat
      have hkeeps := (ih (⟨children, left, rest⟩ :: loops) w hc).after
        (m.announced ⟨id, "repeat", raw, children⟩ noted inputs)
      have hwhole : marks m.actor (m.announced ⟨id, "repeat", raw, children⟩ noted inputs) ++
          m.todo c p children (⟨children, left, rest⟩ :: loops) =
          Block.route c ⟨id, "repeat", raw, children⟩ ++ m.todo c p rest loops := by
        have hsome : children.isEmpty = false := by simpa using something
        rw [marks_announced, Block.route, hread]
        simp [todo, ahead, hsome, htimes, List.replicate_succ]
      rw [hwhole] at hkeeps
      exact hkeeps
    | leaf resolved instruction noLoop =>
      rename_i noted inputs i
      have hread := reading_of_inputs? resolved
      rw [hc] at hread
      have hleaf : typeId ≠ "repeat" := by
        rintro rfl
        obtain ⟨n, hn⟩ := Instruction.ofInputs?_repeat instruction
        exact noLoop n hn
      apply afterLeaf_passedOn m c p rest loops hc _ (Leaf.begin_proper _ _ _ _ _)
      rw [marks_announced, Block.route, hread]
      simp [hleaf]
  case nil =>
    intro loops w hc
    rw [sequence]
    simp [Activity.Keeps, Halt.Meets, Place.ahead, todo, Program.route, marks]
  case cons =>
    intro b rest hb hrest loops w hc
    rw [sequence]
    have hpassed := hb rest loops w hc
    have htodo : m.todo c p (b :: rest) loops = Block.route c b ++ m.todo c p rest loops := by
      simp [todo, Program.route]
    rw [htodo]
    split
    · rename_i activity h
      rw [h] at hpassed
      exact hpassed
    · rename_i w' out h
      rw [h] at hpassed
      obtain ⟨hc', hout⟩ := hpassed
      rw [← hout]
      exact (hrest loops w' hc').after out

theorem sequence_keeps (m : Moment α) {c : Catalog α} (p q : Program α) (loops : List (Loop α))
    {w : World α} (hc : w.catalog = c) :
    (sequence m loops w q).Keeps c p m.actor (m.todo c p q loops) :=
  (dispatch_sequence_keeps m c p).2 q loops w hc

private theorem step_keeps (m : Moment α) {c : Catalog α} {p : Program α} {w : World α} (hc : w.catalog = c)
    (hp : ∀ a, w.store.get? m.actor = some a → a.program = p) :
    (step m w).Keeps c p m.actor (Program.itinerary c (p.drop m.index)) := by
  rcases step_cases m w with ⟨-, hs⟩ | ⟨a, ha, hnone, hs⟩ | ⟨a, block, w₁, said, ha, hblock, written, hs⟩
  · rw [hs]
    exact Activity.fail_keeps w m.actor [] List.nil_prefix
  · rw [hs]
    rw [hp a ha] at hnone
    have hend : p.drop m.index = [] := List.drop_eq_nil_iff.mpr (List.getElem?_eq_none_iff.mp hnone)
    simp [Activity.Keeps, Halt.Meets, hend, Program.itinerary, marks]
  · rw [hs]
    rw [hp a ha] at hblock
    have hc₁ : w₁.catalog = c := (World.frame_write written).catalog.trans hc
    have hkeeps := (sequence_keeps m p [block] [] hc₁).after said
    have hwhole : marks m.actor said ++ m.todo c p [block] [] =
        Program.itinerary c (p.drop m.index) := by
      obtain ⟨-, -, -, rfl⟩ := World.write_eq_ok.mp written
      obtain ⟨hlt, rfl⟩ := List.getElem?_eq_some_iff.mp hblock
      rw [marks_events (by simp), List.drop_eq_getElem_cons hlt]
      simp [todo, ahead, Program.route, Program.itinerary]
    rw [hwhole] at hkeeps
    exact hkeeps

theorem next_cons_keeps (m : Moment α) {c : Catalog α} (p : Program α) {w : World α} (hc : w.catalog = c)
    (l : Loop α) (loops : List (Loop α)) :
    (next m w (l :: loops)).Keeps c p m.actor (ahead c p m.index (l :: loops)) := by
  cases hleft : l.left with
  | zero =>
    have hkeeps := sequence_keeps m p l.after loops hc
    have hwhole : m.todo c p l.after loops = ahead c p m.index (l :: loops) := by
      simp [todo, ahead, hleft]
    rw [hwhole] at hkeeps
    simp only [next, hleft]
    exact hkeeps
  | succ left =>
    have hkeeps := sequence_keeps m p l.body ({ l with left } :: loops) hc
    have hwhole : m.todo c p l.body ({ l with left } :: loops) = ahead c p m.index (l :: loops) := by
      simp [todo, ahead, hleft, List.replicate_succ]
    rw [hwhole] at hkeeps
    simp only [next, hleft]
    exact hkeeps

private theorem next_keeps (m : Moment α) {c : Catalog α} {p : Program α} {w : World α} (hc : w.catalog = c)
    (hp : ∀ a, w.store.get? m.actor = some a → a.program = p) (loops : List (Loop α)) :
    (next m w loops).Keeps c p m.actor (ahead c p m.index loops) := by
  cases loops with
  | nil => exact step_keeps { m with index := m.index + 1 } hc hp
  | cons l loops => exact next_cons_keeps m p hc l loops

end Moment

omit [Scalar α] in
theorem Personal.program_before {actor : Int} {w w' : World α} {out : List (Signal α)} {p : Program α}
    (h : Personal actor w out w') (hp : ∀ a, w'.store.get? actor = some a → a.program = p) :
    ∀ a, w.store.get? actor = some a → a.program = p := by
  intro a ha
  have hprograms := h.programs actor
  rw [ha] at hprograms
  obtain ⟨a', ha', heq⟩ := Option.map_eq_some_iff.mp hprograms
  exact heq.symm.trans (hp a' ha')

/-- Of all that a collision pass tells, only the call for it leaves a mark. -/
theorem World.marks_collide (w : World α) (room : Nat) (actor other : Int) :
    marks actor (.pass other :: (w.collide room).2.1) = if other = actor then [.pass] else [] := by
  have hplain : marks actor (w.collide room).2.1 = [] := marks_plain (w.collide_plain room)
  rw [← List.singleton_append, marks_append, hplain, List.append_nil]
  by_cases h : other = actor <;> simp [marks, Signal.mark?, h]

namespace Place

theorem resume_asleep_keeps (now : α) (actor : Int) {c : Catalog α} (p : Program α) {w : World α}
    (hc : w.catalog = c) (pause : Pause α) (rest : Program α) (loops : List (Loop α)) (index : Nat) :
    ((Place.asleep pause rest loops index).resume now actor w).Keeps c p actor
      (Place.ahead c p (.asleep pause rest loops index)) := by
  have hrest : ∀ w₁ out, w₁.catalog = w.catalog → (∀ x ∈ out, ∃ e, x = Signal.event e) →
      ((Moment.sequence ⟨now, actor, index⟩ loops w₁ rest).after out).Keeps c p actor
        (Place.ahead c p (.asleep pause rest loops index)) := by
    intro w₁ out hframe hevents
    have hkeeps := (Moment.sequence_keeps ⟨now, actor, index⟩ p rest loops (hframe.trans hc)).after out
    rw [marks_events hevents] at hkeeps
    exact hkeeps
  simp only [Place.resume]
  rcases Leaf.wake_cases w (w.roomBelow loops.length) now actor pause with
    ⟨rfl, w₁, out, cleared, hwake⟩ | ⟨rfl, hwake⟩ | ⟨-, hproper, hquiet⟩
  · rw [hwake]
    apply hrest w₁ out (World.frame_write cleared).catalog
    obtain ⟨-, -, -, rfl⟩ := World.write_eq_ok.mp cleared
    simp
  · rw [hwake]
    exact Activity.fail_keeps w actor [] List.nil_prefix
  · generalize Leaf.wake w (w.roomBelow loops.length) now actor pause = leaf at hproper hquiet
    cases leaf with
    | finished w₁ out => exact hrest w₁ out hproper.conduct.frame.catalog hproper.events
    | sleeping w₁ out seconds pause' =>
      have hdeed : Deed actor w out w₁ := by
        cases pause' with
        | bubble => exact absurd rfl (hquiet w₁ out seconds)
        | rest => exact hproper
        | frame motion span => exact hproper
      simp only [Activity.Keeps, Halt.Meets, marks_events hdeed.events, List.nil_append, Place.ahead]
    | failed w₁ out =>
      apply Activity.fail_keeps
      rw [marks_events hproper.events]
      exact List.nil_prefix

/-- A resumption leaves the next of the marks that are ahead. The program that counts is the one that the
actor holds after the collision pass. -/
theorem resume_keeps (now : α) (actor : Int) {c : Catalog α} {p : Program α} {w : World α}
    (place : Place α) (hc : w.catalog = c)
    (hp : ∀ a, (place.resume now actor w).world.store.get? actor = some a → a.program = p) :
    (place.resume now actor w).Keeps c p actor (place.ahead c p) := by
  cases place with
  | fresh =>
    have hown := Moment.step_own ⟨now, actor, 0⟩ w
    exact Moment.step_keeps ⟨now, actor, 0⟩ hc (hown.program_before hp)
  | asleep pause rest loops index => exact resume_asleep_keeps now actor p hc pause rest loops index
  | turn loops index =>
    rw [resume_turn] at hp ⊢
    have hown := afterPass_own now actor loops index (w.collide (w.passRoom loops.length))
    have hprogram := hown.program_before hp
    have hc' : (w.collide (w.passRoom loops.length)).1.catalog = c := hc
    have hpass : marks actor (.pass actor :: (w.collide (w.passRoom loops.length)).2.1) = [.pass] := by
      rw [World.marks_collide, if_pos rfl]
    unfold afterPass
    split
    · apply Activity.fail_keeps
      rw [hpass]
      exact List.prefix_append [Mark.pass] _
    · have hkeeps := (Moment.next_keeps ⟨now, actor, index⟩ hc' hprogram loops).after
        (.pass actor :: (w.collide (w.passRoom loops.length)).2.1)
      rw [hpass] at hkeeps
      exact hkeeps

end Place

end SpriteStage
