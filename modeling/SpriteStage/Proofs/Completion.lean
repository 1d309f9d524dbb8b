import SpriteStage.Proofs.RationalTime
/-!
# Runs that come to their ends

On a stage whose programs are sound at every moment no run fails, whoever swaps programs with
whom: a run that is not stopped goes on until it is complete. What every act keeps up is that each
run is suspended where it can go on.
-/
namespace SpriteStage

instance {α : Type} (room : Nat) (p : Program α) : Decidable (p.Portable room) :=
  decidable_of_iff (Program.copyDepth p ≤ room - Store.handSteps ∧ p.Tellable)
    ⟨fun h => ⟨h.1, h.2⟩, fun h => ⟨h.copied, h.told⟩⟩

namespace Stage

open Timeline

variable {α : Type} [Scalar α]

/-! ## Time during acts -/

/-- The clock stands still and nobody goes to sleep. -/
structure Dozes (s s' : Stage α) : Prop where
  now : s'.now = s.now
  sleepers : s'.sleepers ⊆ s.sleepers

namespace Dozes

omit [Scalar α] in
theorem refl (s : Stage α) : Dozes s s := ⟨rfl, List.Subset.refl _⟩

omit [Scalar α] in
theorem trans {s s₁ s' : Stage α} (h : Dozes s s₁) (h' : Dozes s₁ s') : Dozes s s' :=
  ⟨h'.now.trans h.now, List.Subset.trans h'.sleepers h.sleepers⟩

omit [Scalar α] in
theorem ofSameTasks {s s' : Stage α} (h : SameTasks s s') : Dozes s s' :=
  ⟨h.now, h.sleepers ▸ List.Subset.refl _⟩

end Dozes

private theorem playActor_dozes (s : Stage α) (actor : Int) : Dozes s (s.playActor actor).stage := by
  rcases playActor_cases s actor with hnot | ⟨a, w, said, hp, hw⟩
  · rcases (playActor_of_not hnot).1 with hstage | hstage
    · rw [hstage]
      exact .refl s
    · rw [hstage]
      exact ⟨rfl, List.Subset.refl _⟩
  · rw [playActor_of_playable hp hw]
    exact ⟨rfl, List.Subset.refl _⟩

private theorem playEach_dozes (actors : List Int) (s : Stage α) : Dozes s (playEach actors s).stage := by
  induction actors generalizing s with
  | nil => exact .refl s
  | cons actor actors ih => exact (playActor_dozes s actor).trans (ih _)

private theorem stop_dozes {s : Stage α} (h : s.Orderly) {actors : List Int} (hnodup : actors.Nodup) :
    Dozes s (s.stop actors).stage := by
  by_cases hsome : actors.filter s.players.contains = []
  · rw [stop_of_none hsome]
    exact .refl s
  · obtain ⟨w, out, hs, -, -⟩ := stop_spec h hnodup hsome
    rw [hs]
    exact ⟨rfl, fun x hx => (List.mem_filter.mp hx).1⟩

private theorem perform_dozes {s : Stage α} (h : s.Orderly) {a : Act α} (hbeat : ∀ b, a ≠ .beat b) :
    Dozes s (s.perform a).1 := by
  cases a with
  | beat b => exact absurd rfl (hbeat b)
  | playAll =>
    simp only [perform, Reply.effect, playAll]
    split
    · exact playEach_dozes _ s
    · exact playEach_dozes _ s
  | playActor actor => exact playActor_dozes s actor
  | stopAll => exact stop_dozes h h.players_nodup
  | stopActor actor =>
    simp only [perform, Reply.effect, stopActor]
    split
    · exact .refl s
    · exact stop_dozes h (List.nodup_singleton actor)
  | reset =>
    have hstop := stop_dozes h h.players_nodup
    exact ⟨hstop.now, hstop.sleepers⟩
  | init | addActor _ | deleteActor _ | selectActor _ | submit _ _ _ _ | editInput _ _ _ _
    | reorder _ _ _ | removeBlock _ _ | duplicate _ _ | clearProgram _ =>
    exact .ofSameTasks (perform_sameTasks s rfl)

/-- Whether an act does not set the clock back. -/
def onward (s : Stage α) : Act α → Bool
  | .beat (.clock time) => !Scalar.lt time s.now
  | _ => true

variable [Timeline α]

/-- No act lets a sleeper miss its time, and none but the setting of the clock turns time back. -/
theorem Punctual.perform {s : Stage α} (h : s.Punctual) (horderly : s.Orderly) {a : Act α}
    (htime : ∀ time, a = .beat (.clock time) → IsTime time) (honward : s.onward a = true) :
    (s.perform a).1.Punctual ∧ Scalar.lt (s.perform a).1.now s.now = false := by
  by_cases hbeat : ∀ b, a ≠ .beat b
  · have hdozes := perform_dozes horderly hbeat
    refine ⟨⟨hdozes.now ▸ h.now, ?_⟩, ?_⟩
    · intro x hx
      rw [hdozes.now]
      exact h.wakes x (hdozes.sleepers hx)
    · rw [hdozes.now]
      exact lt_irrefl h.now
  · simp only [ne_eq, not_forall, not_not] at hbeat
    obtain ⟨b, rfl⟩ := hbeat
    refine ⟨h.beat fun time hb => htime time (congrArg Act.beat hb), ?_⟩
    simp only [Stage.perform]
    cases b with
    | retire => exact lt_irrefl h.now
    | turn =>
      simp only [Stage.beat]
      split
      · exact lt_irrefl h.now
      · rename_i t rest _
        rw [(resume_sleepers { s with ready := rest } t).1]
        exact lt_irrefl h.now
    | wake =>
      simp only [Stage.beat]
      split
      · rename_i time _ hnext
        obtain ⟨⟨x, hx, rfl⟩, -, -⟩ := h.nextWake hnext
        rw [h.wakeAt_now hnext]
        exact (h.wakes x hx).2
      · exact lt_irrefl h.now
    | clock time =>
      simp only [Stage.beat]
      split
      · simpa [onward] using honward
      · exact lt_irrefl h.now

/-! ## Stages on which nothing fails -/

omit [Timeline α] in
/-- Whether every program on the stage can be run with so many loops nested in it, and be handed over in a pass
from inside of so many. -/
def isSound (levels : Nat) (s : Stage α) : Bool :=
  s.store.programs.all fun p =>
    Program.isSound levels p && decide (p.Portable (s.world.passRoom levels))

omit [Timeline α] in
/-- Whether the programs on the stage are sound before and after each of some acts, and no act sets the clock
back. -/
def staysSound (levels : Nat) : Stage α → List (Act α) → Bool
  | s, [] => s.isSound levels
  | s, a :: acts => s.isSound levels && s.onward a && (s.perform a).1.staysSound levels acts

omit [Timeline α] in
theorem isSound_iff {levels : Nat} {s : Stage α} : s.isSound levels = true ↔
    s.store.Within fun p => Program.isSound levels p = true ∧ p.Portable (s.world.passRoom levels) := by
  simp [isSound, Store.programs, Store.Within]

omit [Timeline α] in
theorem isSound_of_stays {levels : Nat} {s : Stage α} {acts : List (Act α)}
    (h : s.staysSound levels acts = true) : s.isSound levels = true := by
  cases acts with
  | nil => exact h
  | cons a acts => exact (Bool.and_eq_true_iff.mp (Bool.and_eq_true_iff.mp h).1).1

omit [Timeline α] in
theorem staysSound_append {levels : Nat} {s : Stage α} {acts more : List (Act α)}
    (h : s.staysSound levels (acts ++ more) = true) :
    s.staysSound levels acts = true ∧ (s.enact acts).1.staysSound levels more = true := by
  induction acts generalizing s with
  | nil => exact ⟨isSound_of_stays h, h⟩
  | cons a acts ih =>
    obtain ⟨hnow, hrest⟩ := Bool.and_eq_true_iff.mp h
    obtain ⟨hbefore, hafter⟩ := ih hrest
    exact ⟨Bool.and_eq_true_iff.mpr ⟨hnow, hbefore⟩, hafter⟩

/-- A stage on which every run is suspended where it can go on. -/
structure Sound (levels : Nat) (s : Stage α) : Prop where
  reachable : Reachable s
  catalog : s.world.catalog = Catalog.builtIn
  room : 4 * levels + frameSteps ≤ s.world.runRoom
  punctual : s.Punctual
  places : ∀ t ∈ s.live, t.place.Sound levels s.now

namespace Sound

variable [Everyday α] [Gradual α] [Cubic α] {levels : Nat} {s : Stage α}

private theorem resume (h : s.Sound levels) (hprograms : s.isSound levels = true) {t : Task α} (ht : t ∈ s.live)
    {actor : Int} (hown : t.engine = .player actor) :
    (t.place.resume s.now actor s.world).Sound levels s.now := by
  have horderly := h.reachable.orderly
  obtain ⟨index, message, hstatus, -, -⟩ := horderly.busy_of_task ht hown
  obtain ⟨a, ha, -⟩ := Option.map_eq_some_iff.mp hstatus
  have hready : s.world.Ready levels actor :=
    ⟨h.catalog, h.room, Store.isSome_get?.mp (by rw [ha]; rfl), h.reachable.sized⟩
  exact Place.resume_sound h.punctual.now hready horderly.ascending (isSound_iff.mp hprograms) (h.places t ht)

private theorem perform (h : s.Sound levels) (hprograms : s.isSound levels = true) {a : Act α}
    (htime : ∀ time, a = .beat (.clock time) → IsTime time) (honward : s.onward a = true) :
    (s.perform a).1.Sound levels ∧ Calm (s.perform a).2 := by
  have horderly := h.reachable.orderly
  have hinherits := perform_inherits s a
  obtain ⟨hpunctual, hlater⟩ := h.punctual.perform horderly htime honward
  refine ⟨⟨h.reachable.act a, hinherits.catalog.trans h.catalog, hinherits.runRoom ▸ h.room, hpunctual, ?_⟩, ?_⟩
  · -- A motion that sleeps through the act has still begun after it, as time has not gone back.
    intro t ht
    have hplace : t.place.Sound levels s.now := by
      rcases live_perform horderly a ht with hmem | hfresh | ⟨first, rest, actor, -, hready, hown, -, hplace⟩
      · exact h.places t hmem
      · rw [hfresh]
        trivial
      · exact (h.resume hprograms (by simp [live, hready]) hown).place _ hplace
    exact hplace.later h.punctual.now hpunctual.now hlater
  · -- Only a turn runs a program; no other act says anything that a failed program would.
    by_cases hturn : a = .beat .turn
    · subst hturn
      cases hready : s.ready with
      | nil => simp [Stage.perform, Stage.beat, hready, Calm]
      | cons first rest =>
        have hfirst : first ∈ s.live := by simp [live, hready]
        obtain ⟨⟨actor, hown⟩, -⟩ := horderly.tasks first hfirst
        have hcalm := (h.resume hprograms hfirst hown).calm
        simp only [Stage.perform, Stage.beat, hready]
        rcases resume_cases (s := { s with ready := rest }) (horderly.atTurn hready) hown rfl with
          ⟨seconds, place, -, hs⟩ | ⟨place, -, hs⟩ | ⟨outcome, w, said, -, hwrite, hs⟩
        · rw [hs]
          exact hcalm
        · rw [hs]
          exact hcalm
        · rw [hs]
          obtain ⟨-, -, -, rfl⟩ := World.write_eq_ok.mp hwrite
          exact hcalm.append (by simp [Calm])
    · exact Calm.ofPlain (perform_plain s hturn)

private theorem completes (h : s.Sound levels) (hprograms : s.isSound levels = true) {a : Act α}
    (hstop : a.isStop = false) {actor : Int} (hruns : s.runs? actor = true)
    (hidle : (s.perform a).1.runs? actor = false) : (s.perform a).1.Completed actor := by
  have horderly := h.reachable.orderly
  -- The run ends in a turn of its own, as nobody stops it, and what it ends with is not a failure.
  have hgone : ∀ t ∈ (s.perform a).1.live, t.engine ≠ .player actor := by
    intro t ht hown
    rw [(horderly.perform a).runs_of_live ht hown] at hidle
    cases hidle
  cases horderly.standing actor with
  | idle status _ _ =>
    rw [runs?_of_idle status] at hruns
    cases hruns
  | @busy index message t status engine task own shown =>
    by_cases hturn : a = .beat .turn
    · subst hturn
      cases hready : s.ready with
      | nil =>
        simp only [Stage.perform, Stage.beat, hready] at hgone
        exact absurd own (hgone t task)
      | cons first rest =>
        simp only [Stage.perform, Stage.beat, hready] at hgone ⊢
        by_cases hfirst : first = t
        · subst hfirst
          have hdone := (h.resume hprograms task own).done
          rcases resume_cases (s := { s with ready := rest }) (horderly.atTurn hready) own rfl with
            ⟨seconds, place, -, hs⟩ | ⟨place, -, hs⟩ | ⟨outcome, w, said, hhalt, -, hs⟩
          · rw [hs] at hgone
            exact absurd own (hgone { first with place } (by simp [live]))
          · rw [hs] at hgone
            exact absurd own (hgone { first with place } (by simp [live]))
          · cases hdone outcome hhalt
            rw [hs]
            simp only [Completed, engine?, lookup_setEntry, engine]
            rfl
        · obtain ⟨-, -, -, hmem⟩ := horderly.other_turn task own hready hfirst
          exact absurd own (hgone t (mem_live_resume first hmem))
    · exact absurd own (hgone t (mem_live_perform hturn hstop task))

private theorem enact (h : s.Sound levels) {acts : List (Act α)}
    (htimes : ∀ time, .beat (.clock time) ∈ acts → IsTime time) (hsound : s.staysSound levels acts = true) :
    (s.enact acts).1.Sound levels ∧ Calm (s.enact acts).2 := by
  induction acts generalizing s with
  | nil => exact ⟨h, by simp [Stage.enact, Calm]⟩
  | cons a acts ih =>
    obtain ⟨hnow, hrest⟩ := Bool.and_eq_true_iff.mp hsound
    obtain ⟨hprograms, honward⟩ := Bool.and_eq_true_iff.mp hnow
    obtain ⟨hact, hcalm⟩ := h.perform hprograms (fun time ha => htimes time (ha ▸ List.mem_cons_self)) honward
    obtain ⟨hend, hcalms⟩ := ih hact (fun time hmem => htimes time (List.mem_cons_of_mem _ hmem)) hrest
    exact ⟨hend, hcalm.append hcalms⟩

end Sound

/-- What input values can do to a program of built-in blocks. To read the raw values of a block fails exactly if
one of its texts is wanted of an integer that is never written out. A block that is reached, and has no others
in it, makes its program fail exactly if its type does not serve with the raw values. And where all programs on the
stage serve at every moment, no program fails, and a run that ends without being stopped is complete. -/
theorem sound_programs_complete [Everyday α] [Gradual α] [Cubic α] :
    (∀ t ∈ (Catalog.builtIn : Catalog α).types, ∀ (raw : Fields α) (e : Error), (t.resolve raw).2 = .error e ↔
      e = .integerTooLong ∧ ∃ spec ∈ t.inputs, spec.kind = .text ∧ (spec.given raw).isTooLong = true) ∧
    (∀ (levels : Nat) (m : Moment α) (w : World α) (loops : List (Loop α)), w.Ready levels m.actor →
      loops.length ≤ levels → IsTime m.now → ∀ t ∈ (Catalog.builtIn : Catalog α).types,
        ∀ (raw : Fields α) (id : String) (rest : Program α),
          (∃ a, m.dispatch rest loops w ⟨id, t.id, raw, []⟩ = .inl a ∧
            .notice (.programFailed m.actor) ∈ a.out) ↔ t.serves raw = false) ∧
    ∀ (levels : Nat) (s : Stage α), s.IsEmpty → s.world.catalog = Catalog.builtIn →
      4 * levels + frameSteps ≤ s.world.runRoom → IsTime s.now → ∀ acts : List (Act α),
      (∀ time, .beat (.clock time) ∈ acts → IsTime time) → s.staysSound levels acts = true →
        (∀ actor, .notice (.programFailed actor) ∉ (s.enact acts).2) ∧
        ∀ before a after, acts = before ++ a :: after → a.isStop = false → ∀ actor,
          (s.enact before).1.runs? actor = true → ((s.enact before).1.perform a).1.runs? actor = false →
            ((s.enact before).1.perform a).1.Completed actor := by
  refine ⟨fun t ht raw e => (BlockType.builtIn_regular ht).resolve_error raw e, ?_, ?_⟩
  · intro levels m w loops hw hloops hnow t ht raw id rest
    exact m.dispatch_fails_iff hnow ht raw id rest hw hloops
  · intro levels s hempty hcatalog hroom hnow acts htimes hsound
    have hstart : s.Sound levels :=
      ⟨.empty hempty, hcatalog, hroom, ⟨hnow, by simp [hempty.sleepers]⟩,
        by simp [live, hempty.ready, hempty.sleepers]⟩
    refine ⟨(hstart.enact htimes hsound).2, ?_⟩
    rintro before a after rfl hstop actor hruns hidle
    obtain ⟨hbefore, hrest⟩ := staysSound_append hsound
    have hthere := (hstart.enact (fun time hmem => htimes time (List.mem_append_left _ hmem)) hbefore).1
    exact hthere.completes (isSound_of_stays hrest) hstop hruns hidle

/-- Acts that give the first actor a program with odd input values, put it into play and let time pass. -/
def muddle (rounds : Nat) : List (Act ℚ) :=
  [.init, .submit 1 "repeat" [("times", .text "2")] none,
      .submit 1 "turn" [("degrees", .null)] (some "b1"),
      .submit 1 "move" [("steps", .list [.bool true])] (some "b1"),
      .submit 1 "say" [("message", .object [("why", .null)]), ("duration", .text "soon")] none,
      .submit 1 "change_size" [("change", .bool true)] none,
      .submit 1 "wait" [("seconds", .int (-3))] none, .playAll] ++
    (List.replicate rounds [.beat .turn, .beat .wake]).flatten

def coarse : Stage ℚ := new { Settings.standard with frameInterval := 1 / 2 } ⟨[], 0⟩

def mouthful : Fields ℚ := [("message", .list [.int (Nat.pow 10 4300 : Nat)])]

theorem muddled_run_completes :
    (∃ t ∈ (Catalog.builtIn : Catalog ℚ).types, t.id = "say" ∧ (t.resolve mouthful).2 = .error .integerTooLong ∧
      ∃ a, Moment.dispatch ⟨0, 1, 0⟩ [] [] (coarse.enact [.init]).1.world ⟨"b1", t.id, mouthful, []⟩ = .inl a ∧
        .notice (.programFailed 1) ∈ a.out) ∧
    (∀ actor, .notice (.programFailed actor) ∉ (coarse.enact (muddle 13 ++ [.beat .turn])).2) ∧
    ((coarse.enact (muddle 13)).1.perform (.beat .turn)).1.Completed 1 := by
  obtain ⟨hreads, hfails, hruns⟩ := sound_programs_complete (α := ℚ)
  have hempty : coarse.IsEmpty := new_isEmpty _ _
  have hreachable : Reachable (coarse.enact [.init]).1 := (Reachable.empty hempty).enact _
  constructor
  · have hsay : (Catalog.builtIn : Catalog ℚ).types[5] ∈ (Catalog.builtIn : Catalog ℚ).types := List.getElem_mem _
    have hready : (coarse.enact [.init]).1.world.Ready 0 1 :=
      ⟨rfl, by decide +kernel, by decide +kernel, hreachable.sized⟩
    refine ⟨_, hsay, rfl, ?_, ?_⟩
    · exact (hreads _ hsay mouthful _).mpr ⟨rfl, Catalog.message "Hello!", List.mem_cons_self, rfl, by decide +kernel⟩
    · exact (hfails 0 ⟨0, 1, 0⟩ _ [] hready (Nat.le_refl 0) trivial _ hsay mouthful "b1" []).mpr (by decide +kernel)
  · obtain ⟨hcalm, hends⟩ := hruns 3 coarse hempty rfl (by decide +kernel) trivial
      (muddle 13 ++ [.beat .turn]) (fun _ _ => trivial) (by decide +kernel)
    exact ⟨hcalm, hends (muddle 13) (.beat .turn) [] rfl rfl 1 (by decide +kernel) (by decide +kernel)⟩

def failed? : Signal α → Option Int
  | .notice (.programFailed actor) => some actor
  | _ => none

omit [Scalar α] [Timeline α] in
theorem failed?_eq_some {x : Signal α} {actor : Int} :
    failed? x = some actor ↔ x = .notice (.programFailed actor) := by
  unfold failed?
  split <;> simp_all

def eternity : Int := (Nat.pow 10 309 : Nat)

/-- Acts after which the first actor has come to a block that is to wait for so many seconds. -/
def overlong : List (Act Float) :=
  [.init, .submit 1 "wait" [("seconds", .int eternity)] none, .playAll, .beat .turn]

/-- An integer can be too large to wait for: it is no input value that falls back to a default, and the program
fails although nobody has stopped it. -/
theorem overlong_wait_fails :
    ∃ acts : List (Act Float), (∀ a ∈ acts, a.isStop = false) ∧
      .notice (.programFailed 1) ∈ ((new Settings.standard ⟨[], 0⟩).enact acts).2 ∧
      ((new Settings.standard ⟨[], 0⟩).enact acts).1.runs? 1 = false ∧
      ¬ ((new Settings.standard ⟨[], 0⟩).enact acts).1.Completed 1 := by
  refine ⟨overlong, by simp [overlong, Act.isStop], ?_, by decide +kernel, by unfold Completed; decide +kernel⟩
  have htold : some 1 ∈ ((new Settings.standard ⟨[], 0⟩).enact overlong).2.map failed? := by decide +kernel
  obtain ⟨x, hx, hfailed⟩ := List.mem_map.mp htold
  rwa [failed?_eq_some.mp hfailed] at hx

end Stage

end SpriteStage
