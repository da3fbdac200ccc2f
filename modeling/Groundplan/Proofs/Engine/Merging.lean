import Groundplan.Proofs.Engine.Passes
import Groundplan.Proofs.Engine.Supply

/-!
# Merging Keeps States Sound

When attributes are supplied for an instance, its value is replaced, its template collects the
values of the instances anew, and what depends on the declaration is forgotten.  What is left is
sound for the verdicts after the attributes have been supplied.  The argument goes declaration by
declaration: what is right about one of them does not depend on what is kept about the others.

## Main Definitions

- `Engine.SoundAt`: what a state keeps about one declaration is right

## Main Statements

- `Engine.sound_forgetAll`: a state is sound once everything wrong has been forgotten
- `Engine.Supplied.merge_sound`: merging and forgetting keep states sound
-/

namespace Groundplan

namespace Engine

variable {engine : Engine} {overlay : Overlay} {Admitted : NodeId → Prop} {s : State}

/-! ## One declaration at a time -/

/-- What a state keeps about one declaration is right. -/
structure SoundAt (engine : Engine) (overlay : Overlay) (Admitted : NodeId → Prop) (s : State)
    (address : String) : Prop where
  settled : ∀ node outcome, node.address = address → Table.get? s.settled node = some outcome →
    outcome.result = engine.verdict overlay node
  admitted : ∀ node outcome, node.address = address → Table.get? s.settled node = some outcome →
    Admitted node
  expansions : ∀ e, Table.get? s.expansions address = some e →
    ∃ n r, engine.graph.node? address = some n ∧ n.declaration = .resource r
      ∧ engine.expansionOf (engine.verdict overlay) n r = .ok e
  aggregated : ∀ n r, engine.IsTemplate (.ofAddress address) n r →
    (s.value? (.ofAddress address)).isSome = true → Aggregated s address

/-! ## Forgetting -/

theorem get?_settled_forgetAll (s : State) (affected : List String) (node : NodeId) :
    Table.get? (affected.foldl State.forget s).settled node
      = if node.address ∈ affected then none else Table.get? s.settled node := by
  induction affected generalizing s with
  | nil => simp
  | cons address affected ih =>
    have hforget : Table.get? (s.forget address).settled node
        = if node.address = address then none else Table.get? s.settled node := by
      have hfilter := Table.get?_filter s.settled (fun m => decide (m.address ≠ address)) node
      by_cases haddress : node.address = address <;> simpa [State.forget, haddress] using hfilter
    rw [List.foldl_cons, ih, hforget]
    by_cases haddress : node.address = address <;> simp [haddress]

theorem get?_arguments_forgetAll (s : State) (affected : List String) (node : NodeId) :
    Table.get? (affected.foldl State.forget s).arguments node
      = if node.address ∈ affected then none else Table.get? s.arguments node := by
  induction affected generalizing s with
  | nil => simp
  | cons address affected ih =>
    have hforget : Table.get? (s.forget address).arguments node
        = if node.address = address then none else Table.get? s.arguments node := by
      have hfilter := Table.get?_filter s.arguments (fun m => decide (m.address ≠ address)) node
      by_cases haddress : node.address = address <;> simpa [State.forget, haddress] using hfilter
    rw [List.foldl_cons, ih, hforget]
    by_cases haddress : node.address = address <;> simp [haddress]

theorem get?_expansions_forgetAll (s : State) (affected : List String) (address : String) :
    Table.get? (affected.foldl State.forget s).expansions address
      = if address ∈ affected then none else Table.get? s.expansions address := by
  induction affected generalizing s with
  | nil => simp
  | cons first affected ih =>
    have hforget : Table.get? (s.forget first).expansions address
        = if address = first then none else Table.get? s.expansions address := by
      by_cases haddress : address = first
      · simp [State.forget, haddress]
      · simp [State.forget, haddress, Table.get?_erase_of_ne s.expansions (Ne.symm haddress)]
    rw [List.foldl_cons, ih, hforget]
    by_cases haddress : address = first <;> simp [haddress]

theorem applied_forgetAll (s : State) (affected : List String) :
    (affected.foldl State.forget s).applied = s.applied := by
  induction affected generalizing s with
  | nil => rfl
  | cons address affected ih =>
    rw [List.foldl_cons, ih]
    rfl

theorem value?_forgetAll (s : State) (affected : List String) (node : NodeId) :
    (affected.foldl State.forget s).value? node
      = if node.address ∈ affected then none else s.value? node := by
  unfold State.value?
  rw [get?_settled_forgetAll]
  by_cases hmem : node.address ∈ affected <;> simp [hmem]

/-- A state is sound once every declaration has been forgotten about which it is not. -/
theorem sound_forgetAll {affected : List String} (happlied : s.applied = overlay)
    (h : ∀ address, address ∉ affected → SoundAt engine overlay Admitted s address) :
    Sound engine overlay Admitted (affected.foldl State.forget s) := by
  have hkept : ∀ {node outcome},
      Table.get? (affected.foldl State.forget s).settled node = some outcome →
      node.address ∉ affected ∧ Table.get? s.settled node = some outcome := by
    intro node outcome hnode
    rw [get?_settled_forgetAll] at hnode
    split at hnode
    · cases hnode
    · exact ⟨‹_›, hnode⟩
  refine ⟨(applied_forgetAll s affected).trans happlied, ?_, ?_, ?_, ?_⟩
  · intro node outcome hnode
    obtain ⟨hmem, hnode⟩ := hkept hnode
    exact (h node.address hmem).settled node outcome rfl hnode
  · intro node outcome hnode
    obtain ⟨hmem, hnode⟩ := hkept hnode
    exact (h node.address hmem).admitted node outcome rfl hnode
  · intro address e he
    rw [get?_expansions_forgetAll] at he
    split at he
    · cases he
    · exact (h address ‹_›).expansions e he
  · -- A template and its instances share an address, and are kept or forgotten together.
    intro address n r htemplate hvalue
    rw [value?_forgetAll] at hvalue
    split at hvalue
    · cases hvalue
    · rename_i hmem
      obtain ⟨e, he, hvalues⟩ := (h address hmem).aggregated n r htemplate hvalue
      have hmem' : address ∉ affected := hmem
      refine ⟨e, ?_, fun hdeferred key hkey => ?_⟩
      · rw [get?_expansions_forgetAll, if_neg hmem']
        exact he
      · rw [value?_forgetAll, if_neg hmem']
        exact hvalues hdeferred key hkey

/-! ## Merging -/

/-- An instance with a key is not the whole of its declaration. -/
theorem isSome_key_iff {node : NodeId} :
    node.key.isSome = true ↔ NodeId.ofAddress node.address ≠ node := by
  obtain ⟨address, key⟩ := node
  cases key <;> simp [NodeId.ofAddress]

/-- The state with a value of a node that has more attributes. -/
def withAttributes (s : State) (node : NodeId) (value : Value) (supplied : Table String Value) :
    State :=
  { s with applied := supply s.applied node supplied }.settle node
    (.value (.object (Table.putAll (value.fields?.getD []) supplied)))

theorem merge_eq (s : State) (node : NodeId) (value : Value) (supplied : Table String Value) :
    merge s node value supplied
      = if node.isInstance then reaggregate (withAttributes s node value supplied) node.address
        else withAttributes s node value supplied := rfl

theorem reaggregate_of_value {address : String} {v w : Value} {e : Expansion}
    (hv : s.value? (.ofAddress address) = some v)
    (he : Table.get? s.expansions address = some e) (hw : s.aggregate? e = some w) :
    reaggregate s address = s.settle (.ofAddress address) (.value w) := by
  unfold reaggregate
  rw [hv, he]
  dsimp only
  rw [hw]

theorem reaggregate_of_none {address : String} (hnone : s.value? (.ofAddress address) = none) :
    reaggregate s address = s := by
  unfold reaggregate
  rw [hnone]

/-- Collecting the values of a template changes at most its own value. -/
theorem reaggregate_eq (s : State) (address : String) :
    reaggregate s address = s
      ∨ ∃ w, reaggregate s address = s.settle (.ofAddress address) (.value w) := by
  unfold reaggregate
  split
  · split
    · exact .inr ⟨_, rfl⟩
    · exact .inl rfl
  · exact .inl rfl

section Merged

variable {node : NodeId} {value : Value} {supplied : Table String Value}

theorem get?_withAttributes_self :
    Table.get? (withAttributes s node value supplied).settled node
      = some (.value (.object (Table.putAll (value.fields?.getD []) supplied))) :=
  Table.get?_put_self _ _ _

theorem get?_withAttributes {m : NodeId} (hm : m ≠ node) :
    Table.get? (withAttributes s node value supplied).settled m = Table.get? s.settled m :=
  Table.get?_put_of_ne _ _ (Ne.symm hm)

theorem value?_withAttributes {m : NodeId} (hm : m ≠ node) :
    (withAttributes s node value supplied).value? m = s.value? m := by
  unfold State.value?
  rw [get?_withAttributes hm]

theorem merge_expansions : (merge s node value supplied).expansions = s.expansions := by
  rw [merge_eq]
  split
  · rcases reaggregate_eq (withAttributes s node value supplied) node.address with h | ⟨w, h⟩ <;>
      rw [h] <;> rfl
  · rfl

theorem merge_arguments : (merge s node value supplied).arguments = s.arguments := by
  rw [merge_eq]
  split
  · rcases reaggregate_eq (withAttributes s node value supplied) node.address with h | ⟨w, h⟩ <;>
      rw [h] <;> rfl
  · rfl

theorem merge_applied : (merge s node value supplied).applied = supply s.applied node supplied := by
  rw [merge_eq]
  split
  · rcases reaggregate_eq (withAttributes s node value supplied) node.address with h | ⟨w, h⟩ <;>
      rw [h] <;> rfl
  · rfl

/-- Merging concerns the node and its template only. -/
theorem get?_merge {m : NodeId} (hm : m ≠ .ofAddress node.address ∨ m = node) :
    Table.get? (merge s node value supplied).settled m
      = Table.get? (withAttributes s node value supplied).settled m := by
  rw [merge_eq]
  split
  · rename_i hinstance
    have htemplate : NodeId.ofAddress node.address ≠ m := by
      rintro rfl
      rcases hm with hm | hm
      · exact hm rfl
      · rw [← hm] at hinstance
        cases hinstance
    rcases reaggregate_eq (withAttributes s node value supplied) node.address with h | ⟨w, h⟩
    · rw [h]
    · rw [h]
      exact Table.get?_put_of_ne _ _ htemplate
  · rfl

theorem get?_merge_self :
    Table.get? (merge s node value supplied).settled node
      = some (.value (.object (Table.putAll (value.fields?.getD []) supplied))) :=
  (get?_merge (.inr rfl)).trans get?_withAttributes_self

theorem get?_merge_other {m : NodeId} (hm : m ≠ node) (htemplate : m ≠ .ofAddress node.address) :
    Table.get? (merge s node value supplied).settled m = Table.get? s.settled m :=
  (get?_merge (.inl htemplate)).trans (get?_withAttributes hm)

/-- A template without a value is left alone. -/
theorem get?_merge_template_of_none (hkey : node.key.isSome = true)
    (hnone : s.value? (.ofAddress node.address) = none) :
    Table.get? (merge s node value supplied).settled (.ofAddress node.address)
      = Table.get? s.settled (.ofAddress node.address) := by
  have hne := isSome_key_iff.mp hkey
  rw [merge_eq, NodeId.isInstance, hkey, if_pos rfl, reaggregate_of_none]
  · exact get?_withAttributes hne
  · rw [value?_withAttributes hne, hnone]

/-- A template with a value collects those of its instances. -/
theorem get?_merge_template_of_value (hkey : node.key.isSome = true) {v w : Value} {e : Expansion}
    (hv : s.value? (.ofAddress node.address) = some v)
    (he : Table.get? s.expansions node.address = some e)
    (hw : (withAttributes s node value supplied).aggregate? e = some w) :
    Table.get? (merge s node value supplied).settled (.ofAddress node.address)
      = some (.value w) := by
  have hne := isSome_key_iff.mp hkey
  have hvalue : (withAttributes s node value supplied).value? (.ofAddress node.address)
      = some v := (value?_withAttributes hne).trans hv
  have hexpansions : Table.get? (withAttributes s node value supplied).expansions node.address
      = some e := he
  rw [merge_eq, NodeId.isInstance, hkey, if_pos rfl, reaggregate_of_value hvalue hexpansions hw]
  exact Table.get?_put_self _ _ _

/-- Nothing is settled that has not been settled before. -/
theorem isSome_of_get?_merge (hnode : (Table.get? s.settled node).isSome = true) {m : NodeId}
    (hm : (Table.get? (merge s node value supplied).settled m).isSome = true) :
    (Table.get? s.settled m).isSome = true := by
  by_cases hself : m = node
  · rw [hself]
    exact hnode
  · by_cases htemplate : m = .ofAddress node.address
    · -- A template is settled anew only if it has a value.
      have hkey : node.key.isSome = true :=
        isSome_key_iff.mpr fun hwhole => hself (htemplate.trans hwhole)
      cases hvalue : s.value? m with
      | some v =>
        rw [value?_eq_some_iff.mp hvalue]
        rfl
      | none =>
        rw [htemplate] at hvalue hm ⊢
        rw [get?_merge_template_of_none hkey hvalue] at hm
        exact hm
    · rw [get?_merge_other hself htemplate] at hm
      exact hm

end Merged

/-! ## Soundness -/

/-- A template whose instances have values has one. -/
theorem isSome_aggregateOf {value? : NodeId → Option Value} {e : Expansion}
    (h : ∀ key ∈ e.keys, (value? ⟨e.address, key⟩).isSome = true) :
    (aggregateOf value? e).isSome = true := by
  have hvalues : ∀ keys : List (Option InstanceKey),
      (∀ key ∈ keys, (value? ⟨e.address, key⟩).isSome = true) →
      (keys.mapM fun key => value? ⟨e.address, key⟩).isSome = true := by
    intro keys hkeys
    induction keys with
    | nil => rfl
    | cons key keys ih =>
      obtain ⟨v, hv⟩ := Option.isSome_iff_exists.mp (hkeys key (by simp))
      obtain ⟨vs, hvs⟩ := Option.isSome_iff_exists.mp
        (ih fun k hk => hkeys k (List.mem_cons_of_mem key hk))
      simp [List.mapM_cons, hv, hvs]
  obtain ⟨values, hall⟩ := Option.isSome_iff_exists.mp (hvalues e.keys h)
  unfold aggregateOf
  rw [hall]
  cases e.mode <;> rfl

namespace Supplied

variable {node : NodeId} {value : Value} {n : Graph.Node} {r : Resource}
  (supplied : Table String Value) {Admitted' : NodeId → Prop}

/-- What is kept about declarations other than that of the node is right still. -/
theorem merge_soundAt_other (hs : Sound engine overlay Admitted s)
    (hadmitted : ∀ m, Admitted m →
      ¬ Relation.TransGen engine.graph.Refers m.address node.address → Admitted' m)
    {address : String} (hself : address ≠ node.address)
    (hunrelated : ¬ Relation.TransGen engine.graph.Refers address node.address) :
    SoundAt engine (supply overlay node supplied) Admitted' (merge s node value supplied)
      address := by
  have hkept : ∀ m : NodeId, m.address = address →
      Table.get? (merge s node value supplied).settled m = Table.get? s.settled m := by
    rintro m rfl
    refine get?_merge_other ?_ ?_
    · rintro rfl
      exact hself rfl
    · intro hm
      have haddress : m.address = node.address := by rw [hm]; rfl
      exact hself haddress
  have hvalue : ∀ m : NodeId, m.address = address →
      (merge s node value supplied).value? m = s.value? m := by
    intro m hm
    unfold State.value?
    rw [hkept m hm]
  refine ⟨?_, ?_, ?_, ?_⟩
  · -- Verdicts on declarations that do not depend on that of the node stay.
    intro m outcome hm hsettled
    rw [hkept m hm] at hsettled
    rw [hs.settled m outcome hsettled]
    refine verdict_eq_of_unrelated (fun m' hm' => supply_of_address_ne supplied hm') ?_ ?_
    · rwa [hm]
    · rwa [hm]
  · intro m outcome hm hsettled
    rw [hkept m hm] at hsettled
    exact hadmitted m (hs.admitted m outcome hsettled) (by rwa [hm])
  · intro e he
    rw [merge_expansions] at he
    obtain ⟨n, r, hn, hr, hexpansion⟩ := hs.expansions address e he
    refine ⟨n, r, hn, hr, ?_⟩
    rw [← hexpansion]
    refine (expansionOf_congr fun d hd => ?_).symm
    exact verdict_dependency supplied hunrelated (Graph.refers_iff.mpr ⟨n, hn, hd⟩)
  · intro n r htemplate hresolved
    rw [hvalue _ rfl] at hresolved
    obtain ⟨e, he, hvalues⟩ := hs.aggregated address n r htemplate hresolved
    refine ⟨e, merge_expansions.symm ▸ he, fun hdeferred key hkey => ?_⟩
    rw [hvalue _ rfl]
    exact hvalues hdeferred key hkey

variable (h : engine.Supplied overlay node value n r) (hgraph : engine.graph.Acyclic)
  (hs : Sound engine overlay Admitted s) (hdistinct : Distinct overlay)
  (hvalue : s.value? node = some value)

include h hgraph hs hdistinct hvalue

/-- A keyed node that has a value has an expansion that holds its key. -/
theorem instances_valued {e : Expansion} (hkey : node.key.isSome = true)
    (he : engine.expansionOf (engine.verdict overlay) n r = .ok e)
    (hvalues : ∀ key ∈ e.keys, (s.value? ⟨node.address, key⟩).isSome = true) :
    ∀ key ∈ e.keys,
      (withAttributes s node value supplied).value? ⟨node.address, key⟩
          = (engine.verdict (supply overlay node supplied) ⟨node.address, key⟩).toOption
        ∧ ((withAttributes s node value supplied).value? ⟨node.address, key⟩).isSome = true := by
  intro key hmem
  obtain ⟨_, hkeys⟩ := keys_of_expansionOf (h.multiple hgraph hkey) he
  by_cases hnode : (⟨node.address, key⟩ : NodeId) = node
  · obtain ⟨fields, rfl, hverdict⟩ := h.verdict_self supplied hgraph hdistinct
    rw [hnode, hverdict, value?_eq_some_iff.mpr get?_withAttributes_self]
    exact ⟨rfl, rfl⟩
  · have hother : engine.verdict overlay ⟨node.address, key⟩
        = engine.verdict (supply overlay node supplied) ⟨node.address, key⟩ :=
      verdict_other supplied hgraph rfl hnode (hkeys key hmem)
    obtain ⟨v, hv⟩ := Option.isSome_iff_exists.mp (hvalues key hmem)
    rw [value?_withAttributes hnode, ← hother, hs.verdict_of_value? hv, hv]
    exact ⟨rfl, rfl⟩

/-- A template that has a value collects the value that the verdict gives it. -/
theorem merge_template (hkey : node.key.isSome = true) {v : Value}
    (hv : s.value? (.ofAddress node.address) = some v) :
    ∃ w, Table.get? (merge s node value supplied).settled (.ofAddress node.address)
        = some (.value w)
      ∧ engine.verdict (supply overlay node supplied) (.ofAddress node.address) = .ok w := by
  have hmultiple := h.multiple hgraph hkey
  have htemplate : engine.IsTemplate (.ofAddress node.address) n r :=
    ⟨h.declared, h.resource, hmultiple, rfl⟩
  obtain ⟨e, hcached, hvalues⟩ := hs.aggregated node.address n r htemplate (by rw [hv]; rfl)
  have he := hs.expansionOf_eq h.declared h.resource hcached
  obtain ⟨haddress, _⟩ := keys_of_expansionOf hmultiple he
  have haddress : e.address = node.address :=
    haddress.trans (address_of_resource h.declared h.resource).symm
  rcases h.verdict_template supplied hgraph hdistinct hkey with
    ⟨e', v', he', hdeferred, _, hverdict⟩ | ⟨stop, hverdict, _⟩
  · rw [he] at he'
    cases he'
    -- The state collects the values of the instances, and so does the verdict.
    have hinstances := h.instances_valued supplied hgraph hs hdistinct hvalue hkey he
      (hvalues hdeferred)
    have haggregate : aggregateOf (withAttributes s node value supplied).value? e
        = aggregateOf
            (fun m => (engine.verdict (supply overlay node supplied) m).toOption) e := by
      refine aggregateOf_congr fun key hmem => ?_
      rw [haddress]
      exact (hinstances key hmem).1
    have hsome : (aggregateOf (withAttributes s node value supplied).value? e).isSome = true := by
      refine isSome_aggregateOf fun key hmem => ?_
      rw [haddress]
      exact (hinstances key hmem).2
    obtain ⟨w, hw⟩ := Option.isSome_iff_exists.mp hsome
    refine ⟨w, get?_merge_template_of_value hkey hv hcached hw, ?_⟩
    rw [hverdict, ← haggregate, hw]
    rfl
  · -- The template has a value in the state, and so no failure for its verdict.
    rw [hs.verdict_of_value? hv] at hverdict
    cases hverdict

/-- What has become of the template of the node is right. -/
theorem merge_settled_template (hkey : node.key.isSome = true) {outcome : Settled}
    (houtcome : Table.get? (merge s node value supplied).settled (.ofAddress node.address)
      = some outcome) :
    outcome.result = engine.verdict (supply overlay node supplied) (.ofAddress node.address) := by
  cases hv : s.value? (.ofAddress node.address) with
  | some v =>
    obtain ⟨w, hmerged, hverdict⟩ := h.merge_template supplied hgraph hs hdistinct hvalue hkey hv
    rw [hmerged] at houtcome
    cases houtcome
    exact hverdict.symm
  | none =>
    rw [get?_merge_template_of_none hkey hv] at houtcome
    have hresult := hs.settled _ outcome houtcome
    rcases h.verdict_template supplied hgraph hdistinct hkey with
      ⟨_, v, _, _, hverdict, _⟩ | ⟨stop, hverdict, hverdict'⟩
    · -- A value would be among the values of the state.
      rw [hverdict] at hresult
      have hsame : outcome = .value v := Settled.result_injective hresult
      rw [hsame] at houtcome
      rw [value?_eq_some_iff.mpr houtcome] at hv
      cases hv
    · rw [hresult, hverdict, hverdict']

/-- What has become of the nodes of the declaration is right. -/
theorem merge_settled_self {m : NodeId} {outcome : Settled} (hm : m.address = node.address)
    (houtcome : Table.get? (merge s node value supplied).settled m = some outcome) :
    outcome.result = engine.verdict (supply overlay node supplied) m := by
  by_cases hself : m = node
  · subst hself
    obtain ⟨fields, rfl, hverdict⟩ := h.verdict_self supplied hgraph hdistinct
    rw [get?_merge_self] at houtcome
    cases houtcome
    exact hverdict.symm
  · cases hkey : m.key with
    | some key =>
      -- The other instances keep what they have, and their verdicts stay.
      have hne : m ≠ .ofAddress node.address := by
        rintro rfl
        cases hkey
      rw [get?_merge_other hself hne] at houtcome
      rw [hs.settled m outcome houtcome]
      exact verdict_other supplied hgraph hm hself (by rw [hkey]; rfl)
    | none =>
      have hwhole : m = .ofAddress node.address := by
        rw [NodeId.ofAddress, ← hm, ← hkey]
      subst hwhole
      have hnode : node.key.isSome = true := isSome_key_iff.mpr hself
      exact h.merge_settled_template supplied hgraph hs hdistinct hvalue hnode houtcome

omit hgraph hs hdistinct hvalue in
/-- Attributes are supplied for an instance if the declaration is a template. -/
theorem isSome_key_of_isTemplate {n' : Graph.Node} {r' : Resource}
    (htemplate : engine.IsTemplate (.ofAddress node.address) n' r') :
    node.key.isSome = true := by
  have hsame : n' = n := Option.some.inj (htemplate.declared.symm.trans h.declared)
  have hresource := htemplate.resource
  rw [hsame, h.resource] at hresource
  cases hresource
  have hsingle := h.single
  rw [htemplate.multiple, Bool.and_true] at hsingle
  cases hnode : node.key with
  | some key => rfl
  | none =>
    rw [hnode] at hsingle
    cases hsingle

omit hgraph hdistinct hvalue in
/-- A template with a value has its expansion and the values of its instances still. -/
theorem merge_aggregated_self {n' : Graph.Node} {r' : Resource}
    (htemplate : engine.IsTemplate (.ofAddress node.address) n' r')
    (hresolved : ((merge s node value supplied).value? (.ofAddress node.address)).isSome = true) :
    Aggregated (merge s node value supplied) node.address := by
  have hkey := h.isSome_key_of_isTemplate htemplate
  cases hv : s.value? (.ofAddress node.address) with
  | none =>
    -- Merging gives no value to a template that has none.
    have hnone : (merge s node value supplied).value? (.ofAddress node.address) = none := by
      rw [← hv]
      unfold State.value?
      rw [get?_merge_template_of_none hkey hv]
    rw [hnone] at hresolved
    cases hresolved
  | some v =>
    obtain ⟨e, he, hvalues⟩ := hs.aggregated node.address n' r' htemplate (by rw [hv]; rfl)
    refine ⟨e, merge_expansions.symm ▸ he, fun hdeferred key hmem => ?_⟩
    by_cases hself : (⟨node.address, key⟩ : NodeId) = node
    · rw [hself, value?_eq_some_iff.mpr get?_merge_self]
      rfl
    · by_cases hwhole : (⟨node.address, key⟩ : NodeId) = .ofAddress node.address
      · rw [hwhole]
        exact hresolved
      · have hsame : (merge s node value supplied).value? ⟨node.address, key⟩
            = s.value? ⟨node.address, key⟩ := by
          unfold State.value?
          rw [get?_merge_other hself hwhole]
        rw [hsame]
        exact hvalues hdeferred key hmem

/-- What is kept about the declaration of the node is right. -/
theorem merge_soundAt_self
    (hadmitted : ∀ m, Admitted m →
      ¬ Relation.TransGen engine.graph.Refers m.address node.address → Admitted' m) :
    SoundAt engine (supply overlay node supplied) Admitted' (merge s node value supplied)
      node.address := by
  have hirreflexive := hgraph.irreflexive node.address
  refine ⟨?_, ?_, ?_, ?_⟩
  · intro m outcome hm houtcome
    exact h.merge_settled_self supplied hgraph hs hdistinct hvalue hm houtcome
  · intro m outcome hm houtcome
    have hsettled := value?_eq_some_iff.mp hvalue
    have hbefore := isSome_of_get?_merge (by rw [hsettled]; rfl) (by rw [houtcome]; rfl)
    obtain ⟨before, hbefore⟩ := Option.isSome_iff_exists.mp hbefore
    exact hadmitted m (hs.admitted m before hbefore) (by rwa [hm])
  · intro e he
    rw [merge_expansions] at he
    obtain ⟨n, r, hn, hr, hexpansion⟩ := hs.expansions node.address e he
    refine ⟨n, r, hn, hr, ?_⟩
    rw [← hexpansion]
    -- A declaration does not depend on itself, so that its dependencies are unrelated to it.
    refine (expansionOf_congr fun d hd => ?_).symm
    exact verdict_dependency supplied hirreflexive (Graph.refers_iff.mpr ⟨n, hn, hd⟩)
  · intro n' r' htemplate hresolved
    exact h.merge_aggregated_self supplied hs htemplate hresolved

/-- Once the attributes have been put over those of the node and its dependents have been
forgotten, the state is sound for what has been supplied now. -/
theorem merge_sound
    (hadmitted : ∀ m, Admitted m →
      ¬ Relation.TransGen engine.graph.Refers m.address node.address → Admitted' m) :
    Sound engine (supply overlay node supplied) Admitted'
      ((engine.graph.dependentsClosure [node.address]).foldl State.forget
        (merge s node value supplied)) := by
  refine sound_forgetAll ?_ fun address haddress => ?_
  · rw [merge_applied, hs.applied]
  · rw [Graph.mem_dependentsClosure_iff hgraph.distinct] at haddress
    by_cases hself : address = node.address
    · rw [hself]
      exact h.merge_soundAt_self supplied hgraph hs hdistinct hvalue hadmitted
    · exact merge_soundAt_other supplied hs hadmitted hself haddress

end Supplied

end Engine

end Groundplan
