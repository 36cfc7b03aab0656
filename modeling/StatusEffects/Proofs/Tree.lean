import StatusEffects.Condition.Basic

/-!
The nodes of a condition tree: which of them react to events, which stats they watch, and whether
their kept results are those that their triggers have now.

An event makes some nodes look at their triggers again and leaves the others as they are, so it can
only take stale results away.
-/

set_option autoImplicit false

namespace StatusEffects

variable {π : Type}

def Readings.Agree (r r' : Readings) (stat : StatName) : Prop :=
  r.current stat = r'.current stat ∧ r.computed stat = r'.computed stat

/-- The triggers that a game adds depend on no stat but the one they watch. -/
def WatchedOnly (π : Type) [CustomTrigger π] : Prop :=
  ∀ (p : π) (r r' : Readings),
    (∀ stat, CustomTrigger.watched p = some stat → r.Agree r' stat) →
    CustomTrigger.isMet p r = CustomTrigger.isMet p r'

/-! ### Triggers and single nodes -/

section

variable [CustomTrigger π]

def Trigger.Local (t : Trigger π) : Prop :=
  ∀ r r' : Readings, (∀ stat, t.watched = some stat → r.Agree r' stat) → t.isMet r = t.isMet r'

theorem Trigger.local_of_custom {t : Trigger π} (own : ∀ p, t = .custom p → t.Local) : t.Local := by
  cases t with
  | countdown c => exact fun _ _ _ => rfl
  | threshold t =>
      intro r r' agree
      obtain ⟨current, computed⟩ := agree t.stat rfl
      simp only [isMet, Threshold.isMet, Threshold.effectiveTarget, current, computed]
  | custom p => exact own p rfl

theorem Trigger.isMet_congr (watched : WatchedOnly π) (t : Trigger π) {r r' : Readings}
    (agree : ∀ stat, t.watched = some stat → r.Agree r' stat) : t.isMet r = t.isMet r' := by
  refine local_of_custom (fun p custom => ?_) r r' agree
  subst custom
  exact watched p

def Node.Exact (r : Readings) (n : Node π) : Prop := n.met = n.outcome r

theorem Node.outcome_congr (watched : WatchedOnly π) (n : Node π) {r r' : Readings}
    (agree : ∀ stat, n.trigger.watched = some stat → r.Agree r' stat) :
    n.outcome r = n.outcome r' := by
  unfold outcome
  rw [n.trigger.isMet_congr watched agree]

end

namespace Condition

/-- The nodes of a tree, each before its branches. -/
def nodes : Condition π → List (Node π)
  | .absent => []
  | .node head next alternative => head :: (next.nodes ++ alternative.nodes)

def Armed (c : Condition π) : Prop := ∀ n ∈ c.nodes, n.armed = true

def Unarmed (c : Condition π) : Prop := ∀ n ∈ c.nodes, n.armed = false

instance (c : Condition π) : Decidable c.Armed :=
  inferInstanceAs (Decidable (∀ n ∈ c.nodes, n.armed = true))

instance (c : Condition π) : Decidable c.Unarmed :=
  inferInstanceAs (Decidable (∀ n ∈ c.nodes, n.armed = false))

theorem Unarmed.absent : (absent : Condition π).Unarmed :=
  fun _ member => (List.not_mem_nil member).elim

theorem armed_node {head : Node π} {next alternative : Condition π} :
    (node head next alternative).Armed ↔ head.armed = true ∧ next.Armed ∧ alternative.Armed := by
  simp only [Armed, nodes, List.mem_cons, List.mem_append, or_imp, forall_and, forall_eq]

theorem unarmed_node {head : Node π} {next alternative : Condition π} :
    (node head next alternative).Unarmed ↔
      head.armed = false ∧ next.Unarmed ∧ alternative.Unarmed := by
  simp only [Unarmed, nodes, List.mem_cons, List.mem_append, or_imp, forall_and, forall_eq]

def map (change : Node π → Node π) : Condition π → Condition π
  | .absent => .absent
  | .node head next alternative =>
    .node (change head) (next.map change) (alternative.map change)

theorem nodes_map (change : Node π → Node π) (c : Condition π) :
    (c.map change).nodes = c.nodes.map change := by
  induction c with
  | absent => rfl
  | node head next alternative ihNext ihAlternative =>
      simp only [map, nodes, ihNext, ihAlternative, List.map_cons, List.map_append]

theorem map_eq_self {change : Node π → Node π} {c : Condition π}
    (same : ∀ n ∈ c.nodes, change n = n) : c.map change = c := by
  induction c with
  | absent => rfl
  | node head next alternative ihNext ihAlternative =>
      rw [nodes, List.forall_mem_cons, List.forall_mem_append] at same
      obtain ⟨root, left, right⟩ := same
      rw [map, root, ihNext left, ihAlternative right]

theorem pristine_eq_map (c : Condition π) : c.pristine = c.map Node.pristine := by
  induction c with
  | absent => rfl
  | node head next alternative ihNext ihAlternative =>
      rw [pristine, map, ihNext, ihAlternative]

theorem nodes_pristine (c : Condition π) : c.pristine.nodes = c.nodes.map Node.pristine := by
  rw [pristine_eq_map, nodes_map]

theorem unarmed_pristine (c : Condition π) : c.pristine.Unarmed := by
  intro n member
  rw [nodes_pristine] at member
  obtain ⟨_, _, rfl⟩ := List.mem_map.1 member
  rfl

theorem nodes_orElse (c other : Condition π) : (c.orElse other).nodes = c.nodes ++ other.nodes := by
  induction c with
  | absent => rfl
  | node head next alternative _ ih =>
      rw [orElse, nodes, nodes, ih, List.cons_append, List.append_assoc]

variable [CustomTrigger π]

def Watches (c : Condition π) (stat : StatName) : Prop :=
  ∃ n ∈ c.nodes, n.trigger.watched = some stat

/-- Every node reacts to events, and every kept result is the one that its trigger has. -/
def Exact (r : Readings) (c : Condition π) : Prop :=
  ∀ n ∈ c.nodes, n.armed = true ∧ n.met = n.outcome r

/-- Some node that watches a stat keeps another result than its trigger has. -/
def StaleFor (r : Readings) (stat : StatName) (c : Condition π) : Prop :=
  ∃ n ∈ c.nodes, n.trigger.watched = some stat ∧ ¬n.Exact r

/-- The nodes that watch no stat are exact whatever the stats are. -/
def Placid (c : Condition π) : Prop :=
  ∀ n ∈ c.nodes, n.trigger.watched = none → ∀ r, n.Exact r

theorem exact_of_fresh {r : Readings} {c : Condition π} (armed : c.Armed) (placid : c.Placid)
    (fresh : ∀ stat, ¬c.StaleFor r stat) : c.Exact r := by
  intro n member
  refine ⟨armed n member, Classical.byContradiction fun stale => ?_⟩
  cases watched : n.trigger.watched with
  | none => exact stale (placid n member watched r)
  | some stat => exact fresh stat ⟨n, member, watched, stale⟩

theorem StaleFor.congr (watched : WatchedOnly π) {r r' : Readings} {stat : StatName}
    {c : Condition π} (agree : r.Agree r' stat) (stale : c.StaleFor r' stat) :
    c.StaleFor r stat := by
  obtain ⟨n, member, watches, wrong⟩ := stale
  refine ⟨n, member, watches, fun right => wrong ?_⟩
  have same : n.outcome r = n.outcome r' := n.outcome_congr watched fun other watches' => by
    rw [watches] at watches'
    cases watches'
    exact agree
  exact right.trans same

/-! ### Trees of which some nodes looked again -/

/-- Every node of a tree is one of an earlier tree or has just looked at its trigger. -/
def Renews (r : Readings) (c c' : Condition π) : Prop :=
  ∀ n ∈ c'.nodes, n ∈ c.nodes ∨ (n.armed = true ∧ n.Exact r)

section

variable {r : Readings} {c c' : Condition π}

theorem Renews.armed (renews : c.Renews r c') (armed : c.Armed) : c'.Armed := by
  intro n member
  rcases renews n member with old | new
  · exact armed n old
  · exact new.1

theorem Renews.placid (watched : WatchedOnly π) (renews : c.Renews r c') (placid : c.Placid) :
    c'.Placid := by
  intro n member none r'
  rcases renews n member with old | new
  · exact placid n old none r'
  · have same : n.outcome r = n.outcome r' := n.outcome_congr watched fun stat some => by
      rw [none] at some
      cases some
    exact new.2.trans same

theorem Renews.stale (renews : c.Renews r c') {stat : StatName} (stale : c'.StaleFor r stat) :
    c.StaleFor r stat := by
  obtain ⟨n, member, watches, wrong⟩ := stale
  rcases renews n member with old | new
  · exact ⟨n, old, watches, wrong⟩
  · exact absurd new.2 wrong

theorem Renews.node {head head' : Node π} {next next' alternative alternative' : Condition π}
    (root : head' = head ∨ (head'.armed = true ∧ head'.Exact r)) (left : next.Renews r next')
    (right : alternative.Renews r alternative') :
    (node head next alternative).Renews r (node head' next' alternative') := by
  intro n member
  simp only [nodes, List.mem_cons, List.mem_append] at member ⊢
  rcases member with rfl | member | member
  · exact root.imp_left .inl
  · exact (left n member).imp_left fun old => .inr (.inl old)
  · exact (right n member).imp_left fun old => .inr (.inr old)

theorem Renews.refl (r : Readings) (c : Condition π) : c.Renews r c := fun _ => .inl

theorem arm_renews (unarmed : c.Unarmed) (r : Readings) :
    (absent : Condition π).Renews r (c.arm r) := by
  intro n member
  right
  induction c with
  | absent => cases member
  | node head next alternative ihNext ihAlternative =>
      obtain ⟨root, left, right⟩ := unarmed_node.1 unarmed
      rw [arm, root, if_neg (by decide), nodes, List.mem_cons, List.mem_append] at member
      rcases member with rfl | member | member
      · exact ⟨rfl, rfl⟩
      · exact ihNext left member
      · exact ihAlternative right member

theorem tick_renews (armed : c.Armed) (delta : Float32) (r : Readings) :
    c.Renews r (c.tick delta r).1 := by
  induction c with
  | absent => exact .refl r _
  | node head next alternative ihNext ihAlternative =>
      obtain ⟨root, left, right⟩ := armed_node.1 armed
      rw [tick, if_pos root]
      refine .node ?_ (ihNext left) (ihAlternative right)
      split
      · exact .inr ⟨root, rfl⟩
      · exact .inl rfl

theorem observe_renews (armed : c.Armed) (stat : StatName) (r : Readings) :
    c.Renews r (c.observe stat r).1 := by
  induction c with
  | absent => exact .refl r _
  | node head next alternative ihNext ihAlternative =>
      obtain ⟨root, left, right⟩ := armed_node.1 armed
      rw [observe, if_pos root]
      refine .node ?_ (ihNext left) (ihAlternative right)
      split
      · exact .inr ⟨root, rfl⟩
      · exact .inl rfl

theorem restart_renews (armed : c.Armed) (r : Readings) : c.Renews r (c.restart r) := by
  induction c with
  | absent => exact .refl r _
  | node head next alternative ihNext ihAlternative =>
      obtain ⟨root, left, right⟩ := armed_node.1 armed
      rw [restart]
      refine .node ?_ (ihNext left) (ihAlternative right)
      unfold Node.restart
      dsimp only
      rw [if_pos root]
      exact .inr ⟨root, rfl⟩

/-- After a look at a stat no node that watches it is stale. -/
theorem observe_fresh (armed : c.Armed) (stat : StatName) (r : Readings) :
    ¬(c.observe stat r).1.StaleFor r stat := by
  rintro ⟨n, member, watches, wrong⟩
  induction c with
  | absent => cases member
  | node head next alternative ihNext ihAlternative =>
      obtain ⟨root, left, right⟩ := armed_node.1 armed
      rw [observe, if_pos root, nodes, List.mem_cons, List.mem_append] at member
      rcases member with rfl | member | member
      · split at watches
        · rename_i here
          rw [if_pos here] at wrong
          exact wrong rfl
        · exact absurd watches ‹_›
      · exact ihNext left member
      · exact ihAlternative right member

theorem review_mapCountdown_renews (armed : c.Armed) {t : Countdown} (timed : c.countdown? = some t)
    (change : Countdown → Countdown) (r : Readings) :
    c.Renews r ((c.mapCountdown change).review r).1 := by
  cases c with
  | absent => cases timed
  | node head next alternative =>
      obtain ⟨root, left, right⟩ := armed_node.1 armed
      cases trigger : head.trigger with
      | countdown t' =>
          rw [mapCountdown, trigger]
          dsimp only
          rw [review, if_pos root]
          exact .node (.inr ⟨root, rfl⟩) (.refl r next) (.refl r alternative)
      | threshold t' =>
          rw [countdown?, trigger] at timed
          cases timed
      | custom p =>
          rw [countdown?, trigger] at timed
          cases timed

theorem orElse_renews {extra : Condition π} (unarmed : extra.Unarmed) (c : Condition π)
    (r : Readings) : c.Renews r (c.orElse (extra.arm r)) := by
  intro n member
  rw [nodes_orElse, List.mem_append] at member
  rcases member with old | new
  · exact .inl old
  · exact .inr ((arm_renews unarmed r n new).resolve_left List.not_mem_nil)

end

/-! ### Events that change nothing -/

omit [CustomTrigger π] in
/-- A node comes to what it came to if no result at it or below has changed. -/
theorem verdict_node {head head' : Node π} {next next' alternative alternative' : Condition π}
    {left right sourced : Bool} (unchanged : (head'.met != head.met || left || right) = false)
    (flag : head'.ignoresSourced = head.ignoresSourced)
    (below : left = false →
      ∀ ifAbsent, verdict sourced ifAbsent next' = verdict sourced ifAbsent next)
    (beside : right = false →
      ∀ ifAbsent, verdict sourced ifAbsent alternative' = verdict sourced ifAbsent alternative)
    (ifAbsent : Bool) : verdict sourced ifAbsent (node head' next' alternative') =
      verdict sourced ifAbsent (node head next alternative) := by
  obtain ⟨⟨root, left⟩, right⟩ : ((_ ∧ _) ∧ _) := by
    simpa only [Bool.or_eq_false_iff] using unchanged
  have passes : head'.passes sourced = head.passes sourced := by
    unfold Node.passes
    rw [bne_eq_false_iff_eq.1 root, flag]
  rw [verdict, verdict, passes, below left, beside right]

theorem verdict_tick {c : Condition π} {delta : Float32} {r : Readings}
    (unchanged : (c.tick delta r).2 = false) (sourced ifAbsent : Bool) :
    verdict sourced ifAbsent (c.tick delta r).1 = verdict sourced ifAbsent c := by
  induction c generalizing ifAbsent with
  | absent => rfl
  | node head next alternative ihNext ihAlternative =>
      rw [tick] at unchanged ⊢
      split
      · rename_i armed
        rw [if_pos armed] at unchanged
        refine verdict_node unchanged ?_ ihNext ihAlternative ifAbsent
        split
        · rfl
        · rfl
      · rfl

theorem verdict_observe {c : Condition π} {stat : StatName} {r : Readings}
    (unchanged : (c.observe stat r).2 = false) (sourced ifAbsent : Bool) :
    verdict sourced ifAbsent (c.observe stat r).1 = verdict sourced ifAbsent c := by
  induction c generalizing ifAbsent with
  | absent => rfl
  | node head next alternative ihNext ihAlternative =>
      rw [observe] at unchanged ⊢
      split
      · rename_i armed
        rw [if_pos armed] at unchanged
        refine verdict_node unchanged ?_ ihNext ihAlternative ifAbsent
        split
        · rfl
        · rfl
      · rfl

end Condition

end StatusEffects
