import SpriteStage.Engine.Run
import SpriteStage.Proofs.Passes
/-!
# The conduct of a run

What a run can do to the world between two suspensions is said once, as a relation: it tells
things, changes the heading, the size or the look of its own actor, and moves it. Three acts stand
outside of it and are told apart: the index written before a top-level block, a message that is
shown before the sleep under it and cleared after, and the collision pass after a turn.
-/
namespace SpriteStage

variable {α : Type} [Scalar α]

theorem bind_eq_ok {β γ : Type} {x : Except Error β} {f : β → Except Error γ} {r : γ}
    (h : x >>= f = .ok r) : ∃ b, x = .ok b ∧ f b = .ok r := by
  cases x with
  | error cause => cases h
  | ok b => exact ⟨b, rfl, h⟩

/-- What a run may tell without changing anything: a notice, or that it has reached a block. -/
def Signal.Aside (actor : Int) : Signal α → Prop
  | .notice _ => True
  | .dispatched a _ _ => a = actor
  | _ => False

/-- What a run does to the world, and what it lets the outside see meanwhile. -/
inductive Conduct (actor : Int) : World α → List (Signal α) → World α → Prop where
  | nil (w : World α) : Conduct actor w [] w
  | tell {w w' : World α} {out : List (Signal α)} (x : Signal α) (aside : x.Aside actor)
      (rest : Conduct actor w out w') : Conduct actor w (x :: out) w'
  | change {w w₁ w' : World α} {said out : List (Signal α)} (heading : Option α)
      (size : Option α) (look : Option String)
      (written : w.write actor { heading, size := size.map .real, look := look.map .text } = .ok (w₁, said))
      (rest : Conduct actor w₁ out w') : Conduct actor w (said ++ out) w'
  | move {w w₁ w' : World α} {said out : List (Signal α)} (point : Point α)
      (glided : w.glide actor point = .ok (w₁, said))
      (rest : Conduct actor w₁ out w') : Conduct actor w (said ++ out) w'

namespace Conduct

variable {actor : Int} {w w₁ w' : World α} {out more : List (Signal α)}

private theorem append (h : Conduct actor w out w₁) (h' : Conduct actor w₁ more w') :
    Conduct actor w (out ++ more) w' := by
  induction h with
  | nil w => exact h'
  | tell x aside _ ih => exact .tell x aside (ih h')
  | change heading size look written _ ih =>
    rw [List.append_assoc]
    exact .change heading size look written (ih h')
  | move point glided _ ih =>
    rw [List.append_assoc]
    exact .move point glided (ih h')

private theorem tellAll (w : World α) (h : ∀ x ∈ out, x.Aside actor) : Conduct actor w out w := by
  induction out with
  | nil => exact .nil w
  | cons x out ih =>
    exact .tell x (h x (by simp)) (ih fun y hy => h y (by simp [hy]))

private theorem ofChange {heading s : Option α} {l : Option String}
    (h : w.write actor { heading, size := s.map .real, look := l.map .text } = .ok (w', out)) :
    Conduct actor w out w' := by
  have hc := Conduct.change heading s l h (.nil w')
  rwa [List.append_nil] at hc

private theorem ofMove {point : Point α} (h : w.glide actor point = .ok (w', out)) :
    Conduct actor w out w' := by
  have hc := Conduct.move point h (.nil w')
  rwa [List.append_nil] at hc

theorem frame (h : Conduct actor w out w') : World.SameFrame w w' := by
  induction h with
  | nil w => exact .refl w
  | tell _ _ _ ih => exact ih
  | change _ _ _ written _ ih => exact (World.frame_write written).trans ih
  | move _ glided _ ih => exact (World.frame_glide glided).trans ih

private theorem keeps {β : Type} (f : Actor α → β)
    (hchange : ∀ (heading : Option α) (size look : Option (Value α)) (a : Actor α),
      f (({ heading, size, look } : Patch α).apply a) = f a)
    (hmove : ∀ (s : Settings α) (point : Point α) (a : Actor α), f (a.moved s point) = f a)
    (h : Conduct actor w out w') (id : Int) :
    (w'.store.get? id).map f = (w.store.get? id).map f := by
  induction h with
  | nil w => rfl
  | tell _ _ _ ih => exact ih
  | change heading size look written _ ih =>
    rw [ih, World.get?_write written]
    split
    · rw [Option.map_map]
      congr 1
      funext a
      exact hchange _ _ _ a
    · rfl
  | move point glided _ ih =>
    rw [ih, World.get?_glide glided]
    split
    · rw [Option.map_map]
      congr 1
      funext a
      exact hmove _ _ a
    · rfl

private theorem status? (h : Conduct actor w out w') (id : Int) : w'.status? id = w.status? id :=
  h.keeps Actor.status (fun _ _ _ _ => rfl) (fun _ _ _ => rfl) id

end Conduct

/-- Conduct that tells nothing but what it writes. -/
structure Deed (actor : Int) (w : World α) (out : List (Signal α)) (w' : World α) : Prop where
  conduct : Conduct actor w out w'
  events : ∀ x ∈ out, ∃ e, x = .event e

namespace Deed

variable {actor : Int} {w w' : World α} {out : List (Signal α)}

private theorem nil (w : World α) : Deed actor w [] w := ⟨.nil w, by simp⟩

private theorem ofChange {heading s : Option α} {l : Option String}
    (h : w.write actor { heading, size := s.map .real, look := l.map .text } = .ok (w', out)) :
    Deed actor w out w' := by
  refine ⟨.ofChange h, ?_⟩
  obtain ⟨-, -, -, rfl⟩ := World.write_eq_ok.mp h
  simp

private theorem ofMove {point : Point α} (h : w.glide actor point = .ok (w', out)) : Deed actor w out w' := by
  refine ⟨.ofMove h, ?_⟩
  obtain ⟨-, -, -, rfl⟩ := World.glide_eq_ok.mp h
  simp

end Deed

/-- A block that stays within the conduct of a run, or shows a message and sleeps under it. -/
def Leaf.Proper (actor : Int) (w : World α) : Leaf α → Prop
  | .finished w' out => Deed actor w out w'
  | .sleeping w' out _ .bubble =>
    ∃ text, w.write actor { message := some (.text text) } = .ok (w', out)
  | .sleeping w' out _ _ => Deed actor w out w'
  | .failed w' out => Deed actor w out w'

namespace Motion

private theorem draw_deed {m : Motion α} {w w' : World α} {actor : Int} {t : α} {out : List (Signal α)}
    (h : m.draw w actor t = .ok (w', out)) : Deed actor w out w' := by
  cases m with
  | glide start stop => exact .ofMove h
  | turn start degrees => exact .ofChange (s := none) (l := none) h
  | resize start stop => exact .ofChange (s := some _) (l := none) h

theorem frame_deed {m : Motion α} {w w' : World α} {room : Nat} {actor : Int} {progress : α}
    {out : List (Signal α)} (h : m.frame w room actor progress = .ok (w', out)) :
    Deed actor w out w' := by
  obtain ⟨-, -, h⟩ := bind_eq_ok h
  obtain ⟨t, -, h⟩ := bind_eq_ok h
  exact draw_deed h

end Motion

namespace Leaf

private theorem ofWrite_proper {w : World α} {actor : Int}
    {written : Except Error (World α × List (Signal α))}
    (h : ∀ w' out, written = .ok (w', out) → Deed actor w out w') :
    (ofWrite w written).Proper actor w := by
  cases written with
  | error cause => exact .nil w
  | ok done => exact h _ _ rfl

private theorem ofMotion_proper (w : World α) (room : Nat) (now : α) (actor : Int) (m : Motion α)
    (seconds : α) : (ofMotion w room now actor m seconds).Proper actor w := by
  unfold ofMotion
  split
  · exact ofWrite_proper fun _ _ h => Motion.frame_deed h
  · split
    · exact .nil w
    · exact .nil w

private theorem rest_proper {w : World α} {room : Nat} {actor : Int} {seconds : Number α} {leaf : Leaf α}
    (h : rest w room seconds = .ok leaf) : leaf.Proper actor w := by
  obtain ⟨-, -, h⟩ := bind_eq_ok h
  obtain ⟨x, -, h⟩ := bind_eq_ok h
  cases h
  exact .nil w

private theorem start_proper {w : World α} {room : Nat} {now : α} {a : Actor α} {i : Instruction α}
    {leaf : Leaf α} (h : start w room now a i = .ok leaf) : leaf.Proper a.id w := by
  cases i with
  | move steps =>
    obtain ⟨x, -, h⟩ := bind_eq_ok h
    cases h
    exact ofMotion_proper _ _ _ _ _ _
  | turn degrees =>
    obtain ⟨x, -, h⟩ := bind_eq_ok h
    cases h
    exact ofMotion_proper _ _ _ _ _ _
  | goto x y =>
    obtain ⟨x, -, h⟩ := bind_eq_ok h
    obtain ⟨y, -, h⟩ := bind_eq_ok h
    cases h
    exact ofMotion_proper _ _ _ _ _ _
  | wait seconds => exact rest_proper h
  | say message seconds =>
    obtain ⟨x, -, h⟩ := bind_eq_ok h
    obtain ⟨-, -, h⟩ := bind_eq_ok h
    obtain ⟨⟨w', out⟩, hw, h⟩ := bind_eq_ok h
    cases h
    exact ⟨message, hw⟩
  | resize change =>
    obtain ⟨x, -, h⟩ := bind_eq_ok h
    obtain ⟨extent, -, h⟩ := bind_eq_ok h
    obtain ⟨size, -, h⟩ := bind_eq_ok h
    cases h
    exact ofMotion_proper _ _ _ _ _ _
  | recolour index =>
    obtain ⟨-, -, h⟩ := bind_eq_ok h
    cases h
    exact ofWrite_proper fun _ _ hw => .ofChange (s := none) (l := some _) hw
  | loop times =>
    cases h
    exact .nil w

theorem begin_proper (w : World α) (room : Nat) (now : α) (actor : Int) (i : Instruction α) :
    (begin w room now actor i).Proper actor w := by
  have hstart : ∀ leaf, (w.store.get actor).bind (start w room now · i) = .ok leaf →
      leaf.Proper actor w := by
    intro leaf h
    obtain ⟨a, ha, h⟩ := bind_eq_ok h
    rw [← Store.get?_id (Store.get_eq_ok.mp ha)]
    exact start_proper h
  unfold begin
  dsimp only
  split
  · rename_i leaf hleaf
    split at hleaf
    · exact rest_proper hleaf
    · exact hstart leaf hleaf
  · exact .nil w

/-- What a block does after its sleep. Only a message that is cleared stands outside of the conduct. -/
theorem wake_cases (w : World α) (room : Nat) (now : α) (actor : Int) (pause : Pause α) :
    (pause = .bubble ∧ ∃ w' out, w.write actor { message := some .null } = .ok (w', out) ∧
      wake w room now actor pause = .finished w' out) ∨
    (pause = .bubble ∧ wake w room now actor pause = .failed w []) ∨
    (pause ≠ .bubble ∧ (wake w room now actor pause).Proper actor w ∧
      ∀ w' out seconds, wake w room now actor pause ≠ .sleeping w' out seconds .bubble) := by
  cases pause with
  | rest => exact .inr (.inr ⟨by simp, .nil w, by simp [wake]⟩)
  | bubble =>
    cases hw : (descend room messageSteps).bind fun _ => w.write actor { message := some .null } with
    | error cause => exact .inr (.inl ⟨rfl, by simp [wake, hw, ofWrite]⟩)
    | ok done =>
      obtain ⟨-, -, hdone⟩ := bind_eq_ok hw
      exact .inl ⟨rfl, done.1, done.2, hdone, by simp [wake, hw, ofWrite]⟩
  | frame m span =>
    refine .inr (.inr ⟨by simp, ?_⟩)
    cases hf : m.frame w room actor (span.progress now) with
    | error cause =>
      simp only [wake, hf]
      exact ⟨.nil w, by simp⟩
    | ok done =>
      have hdeed := Motion.frame_deed hf
      simp only [wake, hf]
      split
      · exact ⟨hdeed, by simp⟩
      · exact ⟨hdeed, by simp⟩

end Leaf

omit [Scalar α] in
/-- Induction on a block together with the sequence of its children. -/
theorem Block.induction {P : Block α → Prop} {Q : Program α → Prop}
    (block : ∀ id typeId inputs children, Q children → P ⟨id, typeId, inputs, children⟩)
    (nil : Q []) (cons : ∀ b rest, P b → Q rest → Q (b :: rest)) :
    (∀ b, P b) ∧ ∀ p, Q p :=
  ⟨@Block.rec α P Q block nil cons, @Block.rec_1 α P Q block nil cons⟩

/-- Whether a run that is suspended there sleeps under a message. -/
def Place.bubbles : Place α → Prop
  | .asleep .bubble _ _ _ => True
  | _ => False

def Halt.bubbles : Halt α → Prop
  | .sleep _ place => place.bubbles
  | _ => False

/-- An activity that stays within the conduct of a run until it may show a message and sleep under
it. -/
inductive Activity.Proper (actor : Int) (w : World α) : Activity α → Prop where
  | plain {w' : World α} {out : List (Signal α)} {halt : Halt α} (conduct : Conduct actor w out w')
      (quiet : ¬ halt.bubbles) : Proper actor w ⟨w', out, halt⟩
  | bubble {w₁ w' : World α} {out said : List (Signal α)} {seconds : α} {rest : Program α}
      {loops : List (Loop α)} {index : Nat} (text : String) (conduct : Conduct actor w out w₁)
      (shown : w₁.write actor { message := some (.text text) } = .ok (w', said)) :
      Proper actor w ⟨w', out ++ said, .sleep seconds (.asleep .bubble rest loops index)⟩

namespace Activity

private theorem Proper.after {actor : Int} {w w₁ : World α} {out : List (Signal α)} {a : Activity α}
    (h : Conduct actor w out w₁) (ha : a.Proper actor w₁) : (a.after out).Proper actor w := by
  cases ha with
  | plain conduct quiet => exact .plain (h.append conduct) quiet
  | bubble text conduct shown =>
    simp only [Activity.after, ← List.append_assoc]
    exact .bubble text (h.append conduct) shown

theorem fail_proper (w : World α) (actor : Int) : (fail w actor).Proper actor w :=
  .plain (.tellAll w (by simp [Signal.Aside])) (by simp [Halt.bubbles])

end Activity

namespace Moment

def Passed (actor : Int) (w : World α) : Activity α ⊕ World α × List (Signal α) → Prop
  | .inl a => a.Proper actor w
  | .inr (w', out) => Conduct actor w out w'

/-- How a run goes on after a leaf block, with signals that came before. -/
def afterLeaf (m : Moment α) (rest : Program α) (loops : List (Loop α)) (out : List (Signal α)) :
    Leaf α → Activity α ⊕ World α × List (Signal α)
  | .finished w more => .inr (w, out ++ more)
  | .sleeping w more seconds pause =>
    .inl ⟨w, out ++ more, .sleep seconds (.asleep pause rest loops m.index)⟩
  | .failed w more => .inl ((Activity.fail w m.actor).after (out ++ more))

/-- What the signals say up to the moment at which a block starts. -/
def announced (m : Moment α) (b : Block α) (noted : List (Notice α)) (inputs : Fields α) :
    List (Signal α) :=
  noted.map .notice ++ [.dispatched m.actor b (some inputs)]

/-- Everything that can come of reaching a block. -/
inductive Reaches (m : Moment α) (rest : Program α) (loops : List (Loop α)) (w : World α)
    (b : Block α) : Activity α ⊕ World α × List (Signal α) → Prop where
  | refused (noted : List (Notice α))
      (reason : w.roomBelow loops.length < fallbackSteps ∨
        ∃ notices cause, inputs? w b.typeId b.inputs = some (notices, .error cause)) :
      Reaches m rest loops w b (.inl ((Activity.fail w m.actor).after (noted.map .notice)))
  | skipped (unknown : inputs? w b.typeId b.inputs = none) :
      Reaches m rest loops w b
        (.inr (w, [.dispatched m.actor b none, .notice (.skipped m.actor b.id b.typeId)]))
  | broken {noted : List (Notice α)} {inputs : Fields α}
      (resolved : inputs? w b.typeId b.inputs = some (noted, .ok inputs))
      (none : Instruction.ofInputs? b.typeId inputs = none) :
      Reaches m rest loops w b
        (.inl ((Activity.fail w m.actor).after (m.announced b noted inputs)))
  | idle {noted : List (Notice α)} {inputs : Fields α} {times : Nat}
      (resolved : inputs? w b.typeId b.inputs = some (noted, .ok inputs))
      (loop : Instruction.ofInputs? b.typeId inputs = some (.loop times))
      (nothing : b.children = [] ∨ times = 0) :
      Reaches m rest loops w b (.inr (w, m.announced b noted inputs))
  | enter {noted : List (Notice α)} {inputs : Fields α} {left : Nat}
      (resolved : inputs? w b.typeId b.inputs = some (noted, .ok inputs))
      (loop : Instruction.ofInputs? b.typeId inputs = some (.loop (left + 1)))
      (something : b.children ≠ []) :
      Reaches m rest loops w b
        (.inl ((sequence m (⟨b.children, left, rest⟩ :: loops) w b.children).after
          (m.announced b noted inputs)))
  | leaf {noted : List (Notice α)} {inputs : Fields α} {i : Instruction α}
      (resolved : inputs? w b.typeId b.inputs = some (noted, .ok inputs))
      (instruction : Instruction.ofInputs? b.typeId inputs = some i)
      (noLoop : ∀ times, i ≠ .loop times) :
      Reaches m rest loops w b
        (m.afterLeaf rest loops (m.announced b noted inputs)
          (Leaf.begin w (w.roomBelow loops.length) m.now m.actor i))

theorem dispatch_reaches (m : Moment α) (rest : Program α) (loops : List (Loop α)) (w : World α)
    (b : Block α) : Reaches m rest loops w b (dispatch m rest loops w b) := by
  obtain ⟨id, typeId, raw, children⟩ := b
  rw [dispatch]
  dsimp only
  split
  · rename_i unknown
    split
    · rename_i hroom
      exact .refused [] (.inl (Nat.lt_trans hroom (by decide)))
    · exact .skipped unknown
  · rename_i notices resolved hresolved
    have hsteps : (if notices.isEmpty then readSteps else fallbackSteps) ≤ fallbackSteps := by
      split <;> decide
    generalize (if notices.isEmpty then readSteps else fallbackSteps) = steps at hsteps
    split
    · rename_i hroom
      exact .refused [] (.inl (Nat.lt_of_lt_of_le hroom hsteps))
    · split
      · rename_i cause
        exact .refused notices (.inr ⟨notices, cause, hresolved⟩)
      · rename_i inputs
        split
        · rename_i hnone
          exact .broken hresolved hnone
        · rename_i times hloop
          split
          · exact .idle hresolved hloop (.inl rfl)
          · exact .idle hresolved hloop (.inr rfl)
          · rename_i left hsome
            exact .enter hresolved hloop hsome
        · rename_i i hloop hi
          exact .leaf hresolved hi hloop

omit [Scalar α] in
private theorem aside_announced (m : Moment α) (b : Block α) (noted : List (Notice α))
    (inputs : Fields α) : ∀ x ∈ m.announced b noted inputs, x.Aside m.actor := by
  intro x hx
  simp only [announced, List.mem_append, List.mem_map, List.mem_singleton] at hx
  rcases hx with ⟨notice, -, rfl⟩ | rfl
  · trivial
  · rfl

private theorem afterLeaf_passed (m : Moment α) (rest : Program α) (loops : List (Loop α))
    {w : World α} {out : List (Signal α)} (hout : ∀ x ∈ out, x.Aside m.actor) {leaf : Leaf α}
    (h : leaf.Proper m.actor w) : Passed m.actor w (m.afterLeaf rest loops out leaf) := by
  have hsaid : Conduct m.actor w out w := .tellAll w hout
  cases leaf with
  | finished w' more => exact hsaid.append h.conduct
  | sleeping w' more seconds pause =>
    cases pause with
    | rest => exact .plain (hsaid.append h.conduct) (by simp [Halt.bubbles, Place.bubbles])
    | bubble =>
      obtain ⟨text, shown⟩ := h
      exact .bubble text hsaid shown
    | frame motion span => exact .plain (hsaid.append h.conduct) (by simp [Halt.bubbles, Place.bubbles])
  | failed w' more => exact .after (hsaid.append h.conduct) (Activity.fail_proper w' m.actor)

theorem dispatch_sequence_proper (m : Moment α) :
    (∀ (b : Block α) rest loops w, Passed m.actor w (dispatch m rest loops w b)) ∧
    ∀ (p : Program α) loops w, (sequence m loops w p).Proper m.actor w := by
  apply Block.induction
  case block =>
    intro id typeId raw children ih rest loops w
    have hreaches := dispatch_reaches m rest loops w ⟨id, typeId, raw, children⟩
    generalize dispatch m rest loops w ⟨id, typeId, raw, children⟩ = result at hreaches
    cases hreaches with
    | refused noted =>
      exact .after (.tellAll w (by simp [Signal.Aside])) (Activity.fail_proper w m.actor)
    | skipped _ => exact .tellAll w (by simp [Signal.Aside])
    | broken _ _ =>
      exact .after (.tellAll w (aside_announced _ _ _ _)) (Activity.fail_proper w m.actor)
    | idle _ _ _ => exact .tellAll w (aside_announced _ _ _ _)
    | enter _ _ _ => exact .after (.tellAll w (aside_announced _ _ _ _)) (ih _ w)
    | leaf _ _ _ =>
      exact afterLeaf_passed m rest loops (aside_announced _ _ _ _) (Leaf.begin_proper _ _ _ _ _)
  case nil =>
    intro loops w
    rw [sequence]
    exact .plain (.nil w) (by simp [Halt.bubbles])
  case cons =>
    intro b rest hb hrest loops w
    rw [sequence]
    have hpassed := hb rest loops w
    split
    · rename_i activity h
      rw [h] at hpassed
      exact hpassed
    · rename_i w' out h
      rw [h] at hpassed
      exact .after hpassed (hrest loops w')

theorem sequence_proper (m : Moment α) (loops : List (Loop α)) (w : World α) (p : Program α) :
    (sequence m loops w p).Proper m.actor w :=
  (dispatch_sequence_proper m).2 p loops w

theorem step_cases (m : Moment α) (w : World α) :
    (w.store.get? m.actor = none ∧ step m w = .fail w m.actor) ∨
    (∃ a, w.store.get? m.actor = some a ∧ a.program[m.index]? = none ∧
      step m w = ⟨w, [], .done .completed⟩) ∨
    (∃ a block w₁ said, w.store.get? m.actor = some a ∧ a.program[m.index]? = some block ∧
      w.write m.actor { stepIndex := some (.int m.index) } = .ok (w₁, said) ∧
      step m w = (sequence m [] w₁ [block]).after said) := by
  cases ha : w.store.get? m.actor with
  | none => exact .inl ⟨rfl, by simp [step, ha]⟩
  | some a =>
    cases hb : a.program[m.index]? with
    | none => exact .inr (.inl ⟨a, rfl, hb, by simp [step, ha, hb]⟩)
    | some block =>
      have hw := World.write_of_get? ha { stepIndex := some (.int m.index) }
      exact .inr (.inr ⟨a, block, _, _, rfl, hb, hw, by simp [step, ha, hb, hw]⟩)

end Moment

/-- What an activity of a busy actor leaves behind: the actor is busy still, and a message that is left
is one that it sleeps under or that the end of a failed run clears. No other status changes. -/
structure Activity.Busy (actor : Int) (w : World α) (a : Activity α) : Prop where
  frame : World.SameFrame w a.world
  own : ∃ index message, a.world.status? actor = some (.busy index message) ∧
    (message = .null ∨ a.halt.bubbles ∨ a.halt = .done .cancelled)
  others : ∀ id, id ≠ actor → a.world.status? id = w.status? id

namespace Activity

private theorem Proper.busy {actor : Int} {w : World α} {a : Activity α} (h : a.Proper actor w) {index : Int}
    (hw : w.status? actor = some (.busy index .null)) : a.Busy actor w := by
  cases h with
  | plain conduct quiet =>
    refine ⟨conduct.frame, ⟨index, .null, ?_, .inl rfl⟩, fun id _ => conduct.status? id⟩
    rw [conduct.status?, hw]
  | bubble text conduct shown =>
    refine ⟨conduct.frame.trans (World.frame_write shown), ⟨index, .text text, ?_, .inr (.inl ?_)⟩, ?_⟩
    · rw [World.status?_write shown, if_pos rfl, conduct.status?, hw]
      rfl
    · simp [Halt.bubbles, Place.bubbles]
    · intro id hid
      rw [World.status?_write shown, if_neg hid, conduct.status?]

omit [Scalar α] in
theorem Busy.after {actor : Int} {w w₁ : World α} {a : Activity α} (out : List (Signal α))
    (hframe : World.SameFrame w w₁) (hothers : ∀ id, id ≠ actor → w₁.status? id = w.status? id)
    (h : a.Busy actor w₁) : (a.after out).Busy actor w :=
  ⟨hframe.trans h.frame, h.own, fun id hid => (h.others id hid).trans (hothers id hid)⟩

omit [Scalar α] in
theorem fail_busy {actor : Int} {w : World α} {index : Int} {message : Value α}
    (hw : w.status? actor = some (.busy index message)) : (fail w actor).Busy actor w :=
  ⟨.refl w, ⟨index, message, hw, .inr (.inr rfl)⟩, fun _ _ => rfl⟩

end Activity

namespace Moment

private theorem step_busy {m : Moment α} {w : World α} {index : Int}
    (hw : w.status? m.actor = some (.busy index .null)) : (step m w).Busy m.actor w := by
  rcases step_cases m w with ⟨-, hs⟩ | ⟨a, -, -, hs⟩ | ⟨a, block, w₁, said, -, -, written, hs⟩
  · rw [hs]
    exact Activity.fail_busy hw
  · rw [hs]
    exact ⟨.refl w, ⟨index, .null, hw, .inl rfl⟩, fun _ _ => rfl⟩
  · rw [hs]
    have hw₁ : w₁.status? m.actor = some (.busy m.index .null) := by
      rw [World.status?_write written, if_pos rfl, hw]
      rfl
    apply Activity.Busy.after said (World.frame_write written)
    · intro id hid
      rw [World.status?_write written, if_neg hid]
    · exact (sequence_proper m [] w₁ [block]).busy hw₁

private theorem next_busy {m : Moment α} {w : World α} {index : Int} (loops : List (Loop α))
    (hw : w.status? m.actor = some (.busy index .null)) : (next m w loops).Busy m.actor w := by
  cases loops with
  | nil => exact step_busy (m := { m with index := m.index + 1 }) hw
  | cons l loops =>
    cases hleft : l.left with
    | zero =>
      simp only [next, hleft]
      exact (sequence_proper m _ w _).busy hw
    | succ left =>
      simp only [next, hleft]
      exact (sequence_proper m _ w _).busy hw

end Moment

/-- A run that is resumed keeps its actor busy, whatever happens in it. -/
theorem Place.resume_busy (now : α) {actor : Int} {w : World α} {place : Place α} {index : Int}
    {message : Value α} (hw : w.status? actor = some (.busy index message))
    (hmessage : message = .null ∨ place.bubbles) : (place.resume now actor w).Busy actor w := by
  cases place with
  | fresh =>
    have hnull : message = .null := by simpa [Place.bubbles] using hmessage
    subst hnull
    exact Moment.step_busy (m := ⟨now, actor, 0⟩) hw
  | asleep pause rest loops i =>
    simp only [Place.resume]
    rcases Leaf.wake_cases w (w.roomBelow loops.length) now actor pause with
      ⟨rfl, w₁, out, cleared, hwake⟩ | ⟨rfl, hwake⟩ | ⟨hpause, hproper, hquiet⟩
    · rw [hwake]
      have hw₁ : w₁.status? actor = some (.busy index .null) := by
        rw [World.status?_write cleared, if_pos rfl, hw]
        rfl
      apply Activity.Busy.after out (World.frame_write cleared)
      · intro id hid
        rw [World.status?_write cleared, if_neg hid]
      · exact (Moment.sequence_proper ⟨now, actor, i⟩ loops w₁ rest).busy hw₁
    · rw [hwake]
      exact Activity.Busy.after [] (.refl w) (fun _ _ => rfl) (Activity.fail_busy hw)
    · have hnull : message = .null := by
        cases pause <;> simp_all [Place.bubbles]
      subst hnull
      generalize Leaf.wake w (w.roomBelow loops.length) now actor pause = leaf at hproper hquiet
      cases leaf with
      | finished w₁ out =>
        have hw₁ : w₁.status? actor = some (.busy index .null) := by
          rw [hproper.conduct.status?, hw]
        apply Activity.Busy.after out hproper.conduct.frame (fun id _ => hproper.conduct.status? id)
        exact (Moment.sequence_proper ⟨now, actor, i⟩ loops w₁ rest).busy hw₁
      | sleeping w₁ out seconds pause' =>
        have hconduct : Conduct actor w out w₁ := by
          cases pause' with
          | bubble => exact absurd rfl (hquiet w₁ out seconds)
          | rest => exact hproper.conduct
          | frame motion span => exact hproper.conduct
        have hnot : ¬ (Halt.sleep seconds (.asleep pause' rest loops i)).bubbles := by
          cases pause' with
          | bubble => exact absurd rfl (hquiet w₁ out seconds)
          | rest => simp [Halt.bubbles, Place.bubbles]
          | frame motion span => simp [Halt.bubbles, Place.bubbles]
        exact (Activity.Proper.plain hconduct hnot).busy hw
      | failed w₁ out =>
        have hw₁ : w₁.status? actor = some (.busy index .null) := by
          rw [hproper.conduct.status?, hw]
        exact Activity.Busy.after out hproper.conduct.frame (fun id _ => hproper.conduct.status? id)
          (Activity.fail_busy hw₁)
  | turn loops i =>
    have hnull : message = .null := by simpa [Place.bubbles] using hmessage
    subst hnull
    have hw₁ : (w.collide (w.passRoom loops.length)).1.status? actor = some (.busy index .null) := by
      rw [World.status?_collide, hw]
    apply Activity.Busy.after _ (World.frame_collide w _) (fun id _ => World.status?_collide w _ id)
    split
    · exact Activity.fail_busy hw₁
    · exact Moment.next_busy (m := ⟨now, actor, i⟩) loops hw₁

end SpriteStage
