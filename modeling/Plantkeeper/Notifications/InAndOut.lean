/-
Streams in, streams out and lost subscriptions keep the invariant: the first stream in has a new pump, the last one
out cancels it and awaits it, and a fan-out that fails tells its streams and is forgotten.
-/
import Plantkeeper.Notifications.Attached

namespace Plantkeeper.Notifications.Fanout

open Plantkeeper.Run

variable {w : World} {g i p : ℕ} {s : Signal} {fan : HouseholdFanout} {x : Pump}

/-! ## Streams in -/

theorem fanouts_setFanout {g' : ℕ} {fan' : HouseholdFanout} : (w.setFanout g fan).fanouts g' = some fan' ↔
    (g' = g ∧ some fan = some fan') ∨ (g' ≠ g ∧ w.fanouts g' = some fan') := update_eq_some

/-- The first stream in of a household: a new fan-out is registered. -/
theorem Inv.register (hi : Inv w) (hnone : w.households = none) :
    Inv ({ w with households := some w.nextFanout, nextFanout := w.nextFanout + 1 }.setFanout w.nextFanout
      ⟨[], none, false, false⟩) := by
  have hdead : ∀ p x, w.pumps p ≠ some x := by
    intro p x hp
    have hx := (hi.pump p x hp).1
    rw [hnone] at hx
    cases hx
  refine ⟨⟨?_, ?_, ?_, ?_⟩, fun p x hp => absurd hp (hdead p x), ?_, ?_, ?_, ?_, hi.single⟩
  · intro g hg
    cases hg
    exact ⟨_, Function.update_self ..⟩
  · intro g fan h
    rcases fanouts_setFanout.1 h with ⟨rfl, hset⟩ | ⟨hne, hold⟩
    · cases hset
      exact iff_of_true rfl rfl
    · have hf := hi.failed g fan hold
      rw [hnone] at hf
      exact iff_of_false (fun hfalse => by cases hf.1 hfalse) (fun heq => hne (Option.some.inj heq).symm)
  · intro g fan h
    rcases fanouts_setFanout.1 h with ⟨rfl, _⟩ | ⟨_, hold⟩
    · exact Nat.lt_succ_self _
    · exact Nat.lt_succ_of_lt (hi.old g fan hold)
  · intro g fan h
    rcases fanouts_setFanout.1 h with ⟨rfl, hset⟩ | ⟨_, hold⟩
    · cases hset
      exact List.nodup_nil
    · exact hi.nodup g fan hold
  · intro g fan p h htask
    rcases fanouts_setFanout.1 h with ⟨rfl, hset⟩ | ⟨_, hold⟩
    · cases hset
      cases htask
    · exact hi.task g fan p hold htask
  · intro g fan hg h
    cases hg
    rw [show fan = ⟨[], none, false, false⟩ from Option.some.inj (h.symm.trans (Function.update_self ..))]
    exact ⟨fun hne => absurd rfl hne, fun _ => .inl rfl⟩
  · intro g fan j hg h hmem
    cases hg
    rw [show fan = ⟨[], none, false, false⟩ from Option.some.inj (h.symm.trans (Function.update_self ..))] at hmem
    cases hmem
  · intro j r hr
    obtain ⟨fan, hfan, hok⟩ := hi.signals j r hr
    exact ⟨fan, (Function.update_of_ne (Nat.ne_of_lt (hi.old _ _ hfan)) ..).trans hfan, hok⟩

/-- A stream in, with the one live pump there is by then. -/
theorem Inv.join {t next : ℕ} {pumps : ℕ → Option Pump} (hi : Inv w) (hg : w.households = some g)
    (hfan : w.fanouts g = some fan) (hfree : w.signals i = none) (hlive : ∀ t, fan.task = some t → Alive w.pumps t)
    (hs : s.fanout = g) (hlost : s.lost = false) (hphase : ∀ u, s.phase ≠ .releasing u) (ht : Alive pumps t)
    (hnext : w.nextPump ≤ next) (htn : t < next) (hpumps : ∀ q y, pumps q = some y → q = t ∧ y.fanout = g)
    (htask : ∀ g' fan', g' ≠ g → w.fanouts g' = some fan' → fan'.task ≠ some t) :
    Inv ({ w with pumps := pumps, nextPump := next }.setSignal i (some s) |>.setFanout g
      { fan with signals := fan.signals ++ [i], task := some t }) := by
  have hidle := hi.none_releasing hg hfan hlive
  have hready : fan.failed = false := (hi.failed g fan hfan).2 hg
  have hfresh : i ∉ fan.signals := by
    intro hmem
    obtain ⟨r, hr, _⟩ := hi.members g fan i hg hfan hmem
    rw [hfree] at hr
    cases hr
  have hnodup : (fan.signals ++ [i]).Nodup := by
    refine List.nodup_append.2 ⟨hi.nodup g fan hfan, by simp, ?_⟩
    rintro a ha b hb rfl
    rw [List.mem_singleton.1 hb] at ha
    exact hfresh ha
  refine ⟨hi.setFanout hfan rfl hnodup, ?_, ?_, ?_, ?_, ?_, ?_⟩
  · intro q y hy
    obtain ⟨rfl, hyg⟩ := hpumps q y hy
    rw [hyg]
    exact ⟨hg, htn, { fan with signals := fan.signals ++ [i], task := some q }, Function.update_self .., rfl⟩
  · intro g' fan' q h hq
    rcases update_eq_some.1 h with ⟨rfl, hset⟩ | ⟨hne, hold⟩
    · cases hset
      cases hq
      exact ⟨htn, fun y hy => (hpumps t y hy).2⟩
    · refine ⟨Nat.lt_of_lt_of_le (hi.task g' fan' q hold hq).1 hnext, fun y hy => ?_⟩
      obtain ⟨rfl, _⟩ := hpumps q y hy
      exact absurd hq (htask g' fan' hne hold)
  · intro g' fan' hg' h
    rcases update_eq_some.1 h with ⟨rfl, hset⟩ | ⟨hne, _⟩
    · cases hset
      exact ⟨fun _ => ⟨t, rfl, ht⟩, fun hnil => absurd hnil (by simp)⟩
    · exact absurd (Option.some.inj (hg'.symm.trans hg)) hne
  · intro g' fan' j hg' h hmem
    rcases update_eq_some.1 h with ⟨rfl, hset⟩ | ⟨hne, _⟩
    · cases hset
      rcases List.mem_append.1 hmem with hj | hj
      · obtain ⟨r, hr, hrest⟩ := hi.members g' fan j hg hfan hj
        refine ⟨r, (Function.update_of_ne ?_ ..).trans hr, hrest⟩
        rintro rfl
        exact hfresh hj
      · rw [List.mem_singleton.1 hj]
        exact ⟨s, Function.update_self .., hs, hphase⟩
    · exact absurd (Option.some.inj (hg'.symm.trans hg)) hne
  · intro j r hr
    rcases update_eq_some.1 hr with ⟨rfl, hset⟩ | ⟨_, hr⟩
    · cases hset
      rw [hs]
      exact ⟨_, Function.update_self .., signalOk_attached hphase (List.mem_append_right _ (List.mem_singleton.2 rfl))
        (hlost.trans hready.symm)⟩
    · obtain ⟨fan', hfan', _⟩ := hi.signals j r hr
      obtain ⟨hmem, hl⟩ := hi.attached hr hfan' fun u => hidle j r u hr
      by_cases hrg : r.fanout = g
      · rw [hrg, hfan] at hfan'
        cases hfan'
        refine ⟨_, by rw [hrg]; exact Function.update_self .., ?_⟩
        exact signalOk_attached (fun u => hidle j r u hr) (List.mem_append_left _ hmem) hl
      · exact ⟨fan', (Function.update_of_ne hrg ..).trans hfan', signalOk_attached (fun u => hidle j r u hr) hmem hl⟩
  · intro j k r r' u u' hr hr' hu hu'
    rcases update_eq_some.1 hr with ⟨rfl, hset⟩ | ⟨_, hr⟩
    · cases hset
      exact absurd hu (hphase u)
    · exact absurd hu (hidle j r u hr)

theorem Inv.attachTo (hi : Inv w) (hg : w.households = some g) (hfan : w.fanouts g = some fan) (hfree : w.signals i = none)
    (hlive : ∀ t, fan.task = some t → Alive w.pumps t) : Inv (w.attachTo g fan i) := by
  have hphase : ∀ u, (if fan.ready && !fan.failed then Phase.held else .waiting) ≠ .releasing u := by
    intro u
    split <;> simp
  obtain ⟨signals, task, ready, failed⟩ := fan
  unfold World.attachTo
  cases task with
  | some t =>
    refine hi.join (s := ⟨g, false, false, _⟩) (t := t) hg hfan hfree hlive rfl rfl hphase (hlive t rfl) (Nat.le_refl _)
      (hi.task g _ t hfan rfl).1 ?_ ?_
    · intro q y hy
      obtain ⟨hyg, hq⟩ := hi.pump_task hy hfan hg
      exact ⟨(Option.some.inj hq).symm, hyg⟩
    · intro g' fan' hne hfan' hq
      obtain ⟨y, hy, _⟩ := hlive t rfl
      have hyg := (hi.task g' fan' t hfan' hq).2 y hy
      exact hne (hyg.symm.trans (hi.pump_task hy hfan hg).1)
  | none =>
    refine hi.join (s := ⟨g, false, false, _⟩) (t := w.nextPump) hg hfan hfree hlive rfl rfl hphase
      ⟨⟨g, .starting⟩, Function.update_self .., by simp⟩ (Nat.le_succ _) (Nat.lt_succ_self _) ?_ ?_
    · intro q y hy
      rcases update_eq_some.1 hy with ⟨rfl, hset⟩ | ⟨_, hy⟩
      · cases hset
        exact ⟨rfl, rfl⟩
      · cases (hi.pump_task hy hfan hg).2
    · intro g' fan' _ hfan' hq
      exact absurd (hi.task g' fan' _ hfan' hq).1 (Nat.lt_irrefl _)

theorem setFanout_attachTo (g : ℕ) (fan fan' : HouseholdFanout) (i : ℕ) :
    (w.setFanout g fan').attachTo g fan i = w.attachTo g fan i := by
  unfold World.attachTo World.setFanout World.setSignal World.setPump
  cases fan.task <;> simp only [Function.update_idem]

theorem Inv.attach (hi : Inv w) (hfree : w.signals i = none)
    (hlive : ∀ fan, w.households.bind w.fanouts = some fan → ∀ t, fan.task = some t → Alive w.pumps t) :
    Inv (w.attach i) := by
  unfold World.attach
  cases hg : w.households with
  | some g =>
    obtain ⟨fan, hfan⟩ := hi.registered g hg
    rw [hg] at hlive
    simp only [Option.bind_some, hfan]
    exact hi.attachTo hg hfan hfree (hlive fan hfan)
  | none =>
    change Inv (World.attachTo _ _ _ _)
    rw [← setFanout_attachTo _ _ ⟨[], none, false, false⟩]
    exact (hi.register hg).attachTo rfl (Function.update_self ..) hfree (by simp)

/-! ## Streams out -/

/-- A stream out that leaves no cancelled task behind: the task stays while streams stay. -/
theorem Inv.leave {out : List ℕ} (task : Option ℕ) (hi : Inv w) (hs : w.signals i = some s)
    (hfan : w.fanouts s.fanout = some fan) (hout : ∀ j, j ∈ out ↔ j ∈ fan.signals ∧ j ≠ i) (hnodup : out.Nodup)
    (hlone : ∀ j r u, w.signals j = some r → r.fanout = s.fanout → r.phase = .releasing u → j = i)
    (hpump : ∀ p x, fan.task = some p → w.pumps p = some x → task = some p) (htask : ∀ p, task = some p → fan.task = some p)
    (hkeep : out ≠ [] → task = fan.task) (hlast : out = [] → task = none) :
    Inv ((w.setFanout s.fanout { fan with signals := out, task := task }).setSignal i none) := by
  refine ⟨hi.setFanout hfan rfl hnodup, ?_, ?_, ?_, ?_, ?_, ?_⟩
  · intro p x hp
    obtain ⟨hg, hlt, fan', hfan', ht⟩ := hi.pump p x hp
    refine ⟨hg, hlt, ?_⟩
    by_cases hx : x.fanout = s.fanout
    · rw [hx] at hfan' ⊢
      rw [hfan] at hfan'
      cases hfan'
      exact ⟨{ fan with signals := out, task := task }, Function.update_self .., hpump p x ht hp⟩
    · exact ⟨fan', (Function.update_of_ne hx ..).trans hfan', ht⟩
  · intro g fan' p h ht
    rcases update_eq_some.1 h with ⟨rfl, hset⟩ | ⟨_, hold⟩
    · cases hset
      exact hi.task _ fan p hfan (htask p ht)
    · exact hi.task g fan' p hold ht
  · intro g fan' hg h
    rcases update_eq_some.1 h with ⟨rfl, hset⟩ | ⟨hne, hold⟩
    · cases hset
      refine ⟨fun hstay => ?_, fun hnil => .inl (hlast hnil)⟩
      obtain ⟨j, hj⟩ := List.exists_mem_of_ne_nil _ hstay
      rw [hkeep hstay]
      exact (hi.served _ fan hg hfan).attached (List.ne_nil_of_mem ((hout j).1 hj).1)
    · refine ⟨(hi.served g fan' hg hold).attached, fun hnil => ?_⟩
      rcases (hi.served g fan' hg hold).empty hnil with hnone | ⟨j, r, u, hr, hphase⟩
      · exact .inl hnone
      · refine .inr ⟨j, r, u, (Function.update_of_ne ?_ ..).trans hr, hphase⟩
        rintro rfl
        rw [hs] at hr
        cases hr
        obtain ⟨_, hg', _⟩ := hi.releasing hs hphase
        exact hne (Option.some.inj (hg.symm.trans hg'))
  · intro g fan' j hg h hmem
    rcases update_eq_some.1 h with ⟨rfl, hset⟩ | ⟨hne, hold⟩
    · cases hset
      obtain ⟨hj, hji⟩ := (hout j).1 hmem
      obtain ⟨r, hr, hrest⟩ := hi.members _ fan j hg hfan hj
      exact ⟨r, (Function.update_of_ne hji ..).trans hr, hrest⟩
    · obtain ⟨r, hr, hrg, hrest⟩ := hi.members g fan' j hg hold hmem
      refine ⟨r, (Function.update_of_ne ?_ ..).trans hr, hrg, hrest⟩
      rintro rfl
      rw [hs] at hr
      cases hr
      exact hne hrg.symm
  · intro j r h
    obtain ⟨hji, hr⟩ := eq_some_of_remove h
    obtain ⟨fan', hfan', hok⟩ := hi.signals j r hr
    by_cases hrs : r.fanout = s.fanout
    · have hphase : ∀ u, r.phase ≠ .releasing u := fun u hu => hji (hlone j r u hr hrs hu)
      obtain ⟨hmem, hlost⟩ := hi.attached hr hfan' hphase
      rw [hrs, hfan] at hfan'
      cases hfan'
      rw [hrs]
      exact ⟨_, Function.update_self .., signalOk_attached hphase ((hout j).2 ⟨hmem, hji⟩) hlost⟩
    · exact ⟨fan', (Function.update_of_ne hrs ..).trans hfan', hok⟩
  · intro j k r r' u u' h h' hu hu'
    exact hi.single j k r r' u u' (eq_some_of_remove h).2 (eq_some_of_remove h').2 hu hu'

/-- The last stream out is alone: another one attached would be left in the fan-out, and one that awaits its
cancelled task would have left it empty. -/
theorem Inv.alone (hi : Inv w) (hfan : w.fanouts s.fanout = some fan) (hmem : i ∈ fan.signals)
    (hout : fan.signals.erase i = []) : ∀ j r, w.signals j = some r → r.fanout = s.fanout → j = i := by
  intro j r hr hrs
  by_contra hji
  have hfan' : w.fanouts r.fanout = some fan := hrs ▸ hfan
  by_cases hu : ∃ u, r.phase = .releasing u
  · obtain ⟨u, hu⟩ := hu
    rw [hi.nil_of_releasing hr hu hfan'] at hmem
    cases hmem
  · have hj := (hi.attached hr hfan' fun u h => hu ⟨u, h⟩).1
    have hin : j ∈ fan.signals.erase i := (List.mem_erase_of_ne hji).2 hj
    rw [hout] at hin
    cases hin

/-- The last stream out: its task is cancelled, and it awaits that. -/
theorem Inv.cancel {t : ℕ} (hi : Inv w) (hs : w.signals i = some s) (hfan : w.fanouts s.fanout = some fan)
    (hphase : ∀ u, s.phase ≠ .releasing u) (hout : fan.signals.erase i = []) (htask : fan.task = some t)
    (hp : w.pumps t = some x) :
    Inv (((w.setFanout s.fanout { fan with signals := [] }).setPump t (some { x with state := .cancelled })).setSignal i
      (some { s with phase := .releasing t })) := by
  obtain ⟨hmem, _⟩ := hi.attached hs hfan hphase
  have hx : x.fanout = s.fanout := (hi.task _ fan t hfan htask).2 x hp
  have hg : w.households = some s.fanout := hx ▸ (hi.pump t x hp).1
  have hready : fan.failed = false := (hi.failed _ fan hfan).2 hg
  have hpumps : ∀ q y, Function.update w.pumps t (some { x with state := .cancelled }) q = some y →
      ∃ y', w.pumps q = some y' ∧ y'.fanout = y.fanout :=
    fun _ _ h => exists_of_update (R := (·.fanout = ·.fanout)) (fun _ => rfl) hp rfl h
  have hsigs : ∀ j r, Function.update w.signals i (some { s with phase := .releasing t }) j = some r →
      (j = i ∧ r = { s with phase := .releasing t }) ∨ w.signals j = some r ∧ r.fanout ≠ s.fanout := by
    intro j r h
    rcases update_eq_some.1 h with ⟨rfl, hset⟩ | ⟨hji, hold⟩
    · exact .inl ⟨rfl, (Option.some.inj hset).symm⟩
    · exact .inr ⟨hold, fun hrs => hji (hi.alone hfan hmem hout j r hold hrs)⟩
  have hidle : ∀ j r u, w.signals j = some r → r.fanout ≠ s.fanout → r.phase ≠ .releasing u := by
    intro j r u hr hrs hu
    obtain ⟨_, hg', _⟩ := hi.releasing hr hu
    exact hrs (Option.some.inj (hg'.symm.trans hg))
  refine ⟨hi.setFanout hfan rfl List.nodup_nil, ?_, ?_, ?_, ?_, ?_, ?_⟩
  · intro q y h
    obtain ⟨y', hy', hyg⟩ := hpumps q y h
    obtain ⟨hyx, hq⟩ := hi.pump_task hy' hfan hg
    rw [← hyg, hyx]
    exact ⟨hg, (hi.pump q y' hy').2.1, { fan with signals := [] }, Function.update_self .., hq⟩
  · intro g fan' q h hq
    have hold : ∃ old, w.fanouts g = some old ∧ old.task = some q := by
      rcases update_eq_some.1 h with ⟨rfl, hset⟩ | ⟨_, hold⟩
      · cases hset
        exact ⟨fan, hfan, hq⟩
      · exact ⟨fan', hold, hq⟩
    obtain ⟨old, hold, hq⟩ := hold
    refine ⟨(hi.task g old q hold hq).1, fun y hy => ?_⟩
    obtain ⟨y', hy', hyg⟩ := hpumps q y hy
    exact hyg ▸ (hi.task g old q hold hq).2 y' hy'
  · intro g fan' hg' h
    rcases update_eq_some.1 h with ⟨rfl, hset⟩ | ⟨hne, _⟩
    · cases hset
      exact ⟨fun hne => absurd rfl hne, fun _ => .inr ⟨i, _, t, Function.update_self .., rfl⟩⟩
    · exact absurd (Option.some.inj (hg'.symm.trans hg)) hne
  · intro g fan' j hg' h hj
    rcases update_eq_some.1 h with ⟨rfl, hset⟩ | ⟨hne, _⟩
    · cases hset
      cases hj
    · exact absurd (Option.some.inj (hg'.symm.trans hg)) hne
  · intro j r h
    rcases hsigs j r h with ⟨rfl, rfl⟩ | ⟨hr, hrs⟩
    · refine ⟨{ fan with signals := [] }, Function.update_self .., htask, rfl, hready, ?_⟩
      rintro ⟨y, hy, hlive⟩
      change Function.update w.pumps t _ t = some y at hy
      rw [Function.update_self] at hy
      cases hy
      exact hlive rfl
    · obtain ⟨fan', hfan', _⟩ := hi.signals j r hr
      obtain ⟨hj, hlost⟩ := hi.attached hr hfan' fun u => hidle j r u hr hrs
      exact ⟨fan', (Function.update_of_ne hrs ..).trans hfan', signalOk_attached (fun u => hidle j r u hr hrs) hj hlost⟩
  · intro j k r r' u u' h h' hu hu'
    rcases hsigs j r h with ⟨rfl, rfl⟩ | ⟨hr, hrs⟩
    · rcases hsigs k r' h' with ⟨rfl, _⟩ | ⟨hr', hrs'⟩
      · rfl
      · exact absurd hu' (hidle k r' u' hr' hrs')
    · exact absurd hu (hidle j r u hr hrs)

theorem Inv.detach (hi : Inv w) (hs : w.signals i = some s) (hfan : w.fanouts s.fanout = some fan)
    (hphase : ∀ u, s.phase ≠ .releasing u) : Inv (w.detach i s fan) := by
  obtain ⟨hmem, _⟩ := hi.attached hs hfan hphase
  have hnodup := hi.nodup _ fan hfan
  have hout : ∀ j, j ∈ fan.signals.erase i ↔ j ∈ fan.signals ∧ j ≠ i := by
    intro j
    rw [hnodup.mem_erase_iff, and_comm]
  have hlone : ∀ j r u, w.signals j = some r → r.fanout = s.fanout → r.phase = .releasing u → j = i := by
    intro j r u hr hrs hu
    rw [hi.nil_of_releasing hr hu (hrs ▸ hfan)] at hmem
    cases hmem
  have hleave := fun task => hi.leave task hs hfan hout (hnodup.erase i) hlone
  unfold World.detach
  dsimp only
  split
  · rename_i t hlast htask
    split
    · rename_i hdone
      refine hleave none ?_ (by simp) (fun hne => absurd hlast hne) fun _ => rfl
      intro p x hp hx
      rw [htask] at hp
      cases hp
      rw [hdone] at hx
      cases hx
    · rename_i x hx
      rw [hlast]
      exact hi.cancel hs hfan hphase hlast htask hx
  · rename_i hcases
    refine hleave fan.task (fun p x hp _ => hp) (fun p hp => hp) (fun _ => rfl) fun hlast => ?_
    cases htask : fan.task with
    | none => rfl
    | some t => exact absurd htask (hcases t hlast)

/-- The last stream out goes on: its task is done and forgotten. -/
theorem Inv.detached {t : ℕ} (hi : Inv w) (hs : w.signals i = some s) (hphase : s.phase = .releasing t)
    (hfan : w.fanouts s.fanout = some fan) (hdone : w.pumps t = none) :
    Inv ((w.setFanout s.fanout { fan with task := none }).setSignal i none) := by
  obtain ⟨fan', _, hfan', htask, hnil, _⟩ := hi.releasing hs hphase
  rw [hfan] at hfan'
  cases hfan'
  have hfan' : ({ fan with task := none } : HouseholdFanout) = { fan with signals := [], task := none } := by rw [hnil]
  rw [hfan']
  refine hi.leave none hs hfan (by simp [hnil]) List.nodup_nil ?_ ?_ (by simp) (fun hne => absurd rfl hne) fun _ => rfl
  · intro j r u hr _ hu
    exact hi.single j i r s u t hr hs hu hphase
  · intro p x hp hx
    rw [htask] at hp
    cases hp
    rw [hdone] at hx
    cases hx

/-- A stream cancelled while it attaches to a fan-out that failed leaves its signal in that one only. -/
theorem Inv.cancelAttach (hi : Inv w) (hs : w.signals i = some s) (hfan : w.fanouts s.fanout = some fan)
    (hphase : ∀ u, s.phase ≠ .releasing u) (hfailed : fan.failed = true) : Inv (w.setSignal i none) := by
  refine ⟨hi.toRegistry, hi.pump, hi.task, ?_, ?_, ?_, ?_⟩
  · intro g fan' hg hfan'
    refine ⟨(hi.served g fan' hg hfan').attached, fun hnil => ?_⟩
    rcases (hi.served g fan' hg hfan').empty hnil with hnone | ⟨j, r, u, hr, hu⟩
    · exact .inl hnone
    · refine .inr ⟨j, r, u, (Function.update_of_ne ?_ ..).trans hr, hu⟩
      rintro rfl
      rw [hs] at hr
      cases hr
      exact hphase u hu
  · intro g fan' j hg hfan' hmem
    obtain ⟨r, hr, hrg, hrest⟩ := hi.members g fan' j hg hfan' hmem
    refine ⟨r, (Function.update_of_ne ?_ ..).trans hr, hrg, hrest⟩
    rintro rfl
    rw [hs] at hr
    cases hr
    rw [hrg] at hfan
    have hready := (hi.failed g fan hfan).2 hg
    rw [hfailed] at hready
    cases hready
  · exact fun j r h => hi.signals j r (eq_some_of_remove h).2
  · exact fun j k r r' u u' h h' => hi.single j k r r' u u' (eq_some_of_remove h).2 (eq_some_of_remove h').2

/-! ## A lost subscription -/

theorem fanouts_lose {fan' : HouseholdFanout} (hi : Inv w) (hg : w.households = some g) (hfan : w.fanouts g = some fan)
    {g' : ℕ} (h : (w.lose g fan).fanouts g' = some fan') :
    ∃ old, w.fanouts g' = some old ∧ fan'.signals = old.signals ∧ fan'.task = old.task ∧ fan'.failed = true := by
  rcases update_eq_some.1 h with ⟨rfl, hset⟩ | ⟨hne, hold⟩
  · cases hset
    exact ⟨fan, hfan, rfl, rfl, rfl⟩
  · refine ⟨fan', hold, rfl, rfl, ?_⟩
    cases hf : fan'.failed with
    | true => rfl
    | false => exact absurd (Option.some.inj (((hi.failed g' fan' hold).1 hf).symm.trans hg)) hne

theorem signals_lose (g : ℕ) {j : ℕ} {r : Signal} (h : (w.lose g fan).signals j = some r) :
    ∃ r', w.signals j = some r' ∧ r.fanout = r'.fanout ∧ r.phase = r'.phase ∧
      r.lost = if j ∈ fan.signals then true else r'.lost := by
  change (if j ∈ fan.signals then _ else _) = _ at h
  split at h
  · rename_i hmem
    obtain ⟨r', hr', rfl⟩ := Option.map_eq_some_iff.1 h
    exact ⟨r', hr', rfl, rfl, by rw [if_pos hmem]⟩
  · rename_i hmem
    exact ⟨r, h, rfl, rfl, by rw [if_neg hmem]⟩

/-- The streams of a lost subscription are told, and the household has no fan-out. -/
theorem Inv.lost (hi : Inv w) (hp : w.pumps p = some x) (hx : x.state ≠ .cancelled)
    (hfan : w.fanouts x.fanout = some fan) : Inv ((w.lose x.fanout fan).setPump p none) := by
  have hg := (hi.pump p x hp).1
  have htask := (hi.pump_task hp hfan hg).2
  have hidle := hi.none_releasing hg hfan fun t ht => by
    rw [htask] at ht
    cases ht
    exact ⟨x, hp, hx⟩
  have hdead : ∀ q y, Function.update w.pumps p none q ≠ some y := by
    intro q y h
    obtain ⟨hq, hold⟩ := eq_some_of_remove h
    exact hq (Option.some.inj ((hi.pump_task hold hfan hg).2.symm.trans htask))
  have hnone : ((w.lose x.fanout fan).setPump p none).households = none := if_pos hg
  refine ⟨⟨?_, ?_, ?_, ?_⟩, fun q y h => absurd h (hdead q y), ?_, ?_, ?_, ?_, ?_⟩
  · intro g h
    rw [hnone] at h
    cases h
  · intro g fan' h
    obtain ⟨_, _, _, _, hf⟩ := fanouts_lose hi hg hfan h
    rw [hf, hnone]
    simp
  · intro g fan' h
    obtain ⟨old, hold, _⟩ := fanouts_lose hi hg hfan h
    exact hi.old g old hold
  · intro g fan' h
    obtain ⟨old, hold, hsame, _⟩ := fanouts_lose hi hg hfan h
    rw [hsame]
    exact hi.nodup g old hold
  · intro g fan' q h hq
    obtain ⟨old, hold, _, ht, _⟩ := fanouts_lose hi hg hfan h
    exact ⟨(hi.task g old q hold (ht.symm.trans hq)).1, fun y hy => absurd hy (hdead q y)⟩
  · intro g fan' h
    rw [hnone] at h
    cases h
  · intro g fan' j h
    rw [hnone] at h
    cases h
  · intro j r h
    obtain ⟨r', hr', hrg, hphase, hlost⟩ := signals_lose x.fanout h
    have hnot : ∀ u, r.phase ≠ .releasing u := fun u hu => hidle j r' u hr' (hphase.symm.trans hu)
    obtain ⟨old, hold, _⟩ := hi.signals j r' hr'
    obtain ⟨hmem, hl⟩ := hi.attached hr' hold fun u => hidle j r' u hr'
    rw [hrg]
    by_cases hrx : r'.fanout = x.fanout
    · rw [hrx, hfan] at hold
      cases hold
      rw [hrx]
      refine ⟨_, Function.update_self .., signalOk_attached hnot hmem ?_⟩
      rw [hlost, if_pos hmem]
    · refine ⟨old, (Function.update_of_ne hrx ..).trans hold, signalOk_attached hnot hmem ?_⟩
      -- a fan-out before this one: its streams were told already
      have hout : j ∉ fan.signals := by
        intro hj
        obtain ⟨r₂, hr₂, hrx₂, _⟩ := hi.members _ fan j hg hfan hj
        rw [hr'] at hr₂
        cases hr₂
        exact hrx hrx₂
      rw [hlost, if_neg hout]
      exact hl
  · intro j k r r' u u' h _ hu _
    obtain ⟨r₀, hr₀, _, hphase, _⟩ := signals_lose x.fanout h
    exact absurd (hphase.symm.trans hu) (hidle j r₀ u hr₀)

end Plantkeeper.Notifications.Fanout
