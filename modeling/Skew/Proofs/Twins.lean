import Skew.Proofs.Coercion
import Skew.Proofs.EqualDocuments

/-!
# Twins

Values are twins when they are the same but for the marks and contexts of the entities in them and
the signs of zeros. Equal values are twins as soon as the entities in them are of the same types,
place by place (`Value.Twin.of_beq`): equality looks at the names of types only, while what is
written shows versions and depends on the definitions. An indeterminate float equals nothing and
is its own twin, so that whatever stays as it is may count as replaced by its twin.

Twins are written alike, markers aside (`Value.Twin.write`), and where a kind stores one of them
unchanged, what it makes of the other is again a twin (`Kind.Stores.coerce_twin`). Codecs are asked
for as much (`Codec.Evenhanded`).
-/

namespace Skew

/-- Entities of the same definition, with data of the same version. -/
structure Entity.SameType (d e : Entity) : Prop where
  schema : d.schema = e.schema
  version : d.version = e.version

/-- The same values but for marks, contexts and the signs of zeros. -/
inductive Value.Twin : Value → Value → Prop
  | null : Twin .null .null
  | bool (b : Bool) : Twin (.bool b) (.bool b)
  | int (n : Int64) : Twin (.int n) (.int n)
  | float {x y : Float} (h : x = y ∨ (x == y) = true) : Twin (.float x) (.float y)
  | str (s : String) : Twin (.str s) (.str s)
  | datetime (t : Calendar.Instant) : Twin (.datetime t) (.datetime t)
  | list {vs ws : List Value} (h : List.Forall₂ Twin vs ws) : Twin (.list vs) (.list ws)
  | tuple {vs ws : List Value} (h : List.Forall₂ Twin vs ws) : Twin (.tuple vs) (.tuple ws)
  | set {vs ws : List Value} (h : List.Forall₂ Twin vs ws) : Twin (.set vs) (.set ws)
  | map {es ds : List (String × Value)} (hkeys : es.map (·.1) = ds.map (·.1))
      (h : List.Forall₂ Twin (es.map (·.2)) (ds.map (·.2))) : Twin (.map es) (.map ds)
  | entity {e d : Entity} (htype : e.SameType d)
      (hnames : e.values.map (·.1) = d.values.map (·.1))
      (h : List.Forall₂ Twin (e.values.map (·.2)) (d.values.map (·.2))) :
      Twin (.entity e) (.entity d)

/-- Entries side by side: the same keys, and contents side by side. -/
theorem Record.forall₂_iff {α β : Type} {R : α → β → Prop} {r : Record α} {s : Record β} :
    List.Forall₂ (fun p q => p.1 = q.1 ∧ R p.2 q.2) r s ↔
      r.map (·.1) = s.map (·.1) ∧ List.Forall₂ R (r.map (·.2)) (s.map (·.2)) := by
  induction r generalizing s with
  | nil => cases s <;> simp
  | cons p r ih => cases s <;> simp [ih, and_and_and_comm]

namespace Value

theorem beqItems_iff {vs ws : List Value} :
    beqItems vs ws = true ↔ List.Forall₂ (fun v w => beq v w = true) vs ws := by
  induction vs generalizing ws with
  | nil => cases ws <;> simp [beqItems]
  | cons v vs ih => cases ws <;> simp [beqItems, ih]

theorem beqEntries_eq (es ds : List (String × Value)) : beqEntries es ds =
    (es.map (·.1) == ds.map (·.1) && beqItems (es.map (·.2)) (ds.map (·.2))) := by
  induction es generalizing ds with
  | nil => cases ds <;> rfl
  | cons e es ih =>
      cases ds with
      | nil => rfl
      | cons d ds =>
          simp only [beqEntries, ih, List.map_cons, beqItems, List.cons_beq_cons]
          ac_rfl

/-- Entries are equal when they have the same names and equal contents, in the same order. -/
theorem beqEntries_iff {es ds : List (String × Value)} : beqEntries es ds = true ↔
    List.Forall₂ (fun p q => p.1 = q.1 ∧ beq p.2 q.2 = true) es ds := by
  rw [beqEntries_eq, Bool.and_eq_true, beq_iff_eq, beqItems_iff]
  exact (Record.forall₂_iff (R := fun v w => beq v w = true)).symm

end Value

theorem Entity.beq_iff {e d : Entity} : (e == d) = true ↔ e.schema.name = d.schema.name ∧
    List.Forall₂ (fun p q => p.1 = q.1 ∧ Value.beq p.2 q.2 = true) e.values d.values := by
  obtain ⟨s, _, _, es, _⟩ := e
  obtain ⟨t, _, _, ds, _⟩ := d
  rw [← Value.beqEntries_iff]
  show (s.name == t.name && Value.beqEntries es ds) = true ↔ _
  rw [Bool.and_eq_true, beq_iff_eq]

namespace Value

namespace Twin

theorem map_iff {es ds : List (String × Value)} : Twin (.map es) (.map ds) ↔
    List.Forall₂ (fun p q => p.1 = q.1 ∧ Twin p.2 q.2) es ds := by
  rw [Record.forall₂_iff]
  constructor
  · rintro ⟨⟩
    exact ⟨‹_›, ‹_›⟩
  · rintro ⟨hkeys, h⟩
    exact .map hkeys h

theorem entity_iff {e d : Entity} : Twin (.entity e) (.entity d) ↔ e.SameType d ∧
    List.Forall₂ (fun p q => p.1 = q.1 ∧ Twin p.2 q.2) e.values d.values := by
  rw [Record.forall₂_iff]
  constructor
  · rintro ⟨⟩
    exact ⟨‹_›, ‹_›, ‹_›⟩
  · rintro ⟨htype, hnames, h⟩
    exact .entity htype hnames h

theorem refl (v : Value) : v.Twin v := by
  induction v using Value.nested with
  | null => exact .null
  | bool b => exact .bool b
  | int n => exact .int n
  | float x => exact .float (Or.inl rfl)
  | str s => exact .str s
  | datetime t => exact .datetime t
  | list vs ih => exact .list (List.forall₂_same.mpr ih)
  | tuple vs ih => exact .tuple (List.forall₂_same.mpr ih)
  | set vs ih => exact .set (List.forall₂_same.mpr ih)
  | map es ih => exact map_iff.mpr (List.forall₂_same.mpr fun p hp => ⟨rfl, ih p hp⟩)
  | entity e ih =>
      exact entity_iff.mpr ⟨⟨rfl, rfl⟩, List.forall₂_same.mpr fun p hp => ⟨rfl, ih p hp⟩⟩

theorem trans {u v w : Value} (huv : u.Twin v) (hvw : v.Twin w) : u.Twin w := by
  induction u using Value.nested generalizing v w with
  | null | bool | int | str | datetime =>
      cases huv
      exact hvw
  | float x =>
      cases huv with
      | float huv =>
          cases hvw with
          | float hvw =>
              rcases huv with rfl | huv
              · exact .float hvw
              · rcases hvw with rfl | hvw
                · exact .float (Or.inr huv)
                · exact .float (Or.inr (Float.beq_trans huv hvw))
  | list us ih =>
      cases huv with
      | list huv =>
          cases hvw with
          | list hvw => exact .list (List.forall₂_of_forall₂ huv hvw fun u hu v w => ih u hu)
  | tuple us ih =>
      cases huv with
      | tuple huv =>
          cases hvw with
          | tuple hvw => exact .tuple (List.forall₂_of_forall₂ huv hvw fun u hu v w => ih u hu)
  | set us ih =>
      cases huv with
      | set huv =>
          cases hvw with
          | set hvw => exact .set (List.forall₂_of_forall₂ huv hvw fun u hu v w => ih u hu)
  | map es ih =>
      have huv' := huv
      have hvw' := hvw
      cases huv
      cases hvw
      exact map_iff.mpr (List.forall₂_of_forall₂ (map_iff.mp huv') (map_iff.mp hvw')
        fun p hp q r hpq hqr => ⟨hpq.1.trans hqr.1, ih p hp hpq.2 hqr.2⟩)
  | entity e ih =>
      have huv' := huv
      have hvw' := hvw
      cases huv
      cases hvw
      obtain ⟨htype, hvalues⟩ := entity_iff.mp huv'
      obtain ⟨htype', hvalues'⟩ := entity_iff.mp hvw'
      exact entity_iff.mpr ⟨⟨htype.1.trans htype'.1, htype.2.trans htype'.2⟩,
        List.forall₂_of_forall₂ hvalues hvalues' fun p hp q r hpq hqr =>
          ⟨hpq.1.trans hqr.1, ih p hp hpq.2 hqr.2⟩⟩

/-- Values that differ in marks at most are twins. -/
theorem of_unmarked {v w : Value} (h : v.unmarked = w.unmarked) : v.Twin w := by
  have hentries {es ds : List (String × Value)}
      (ih : ∀ p ∈ es, ∀ {w : Value}, p.2.unmarked = w.unmarked → p.2.Twin w)
      (h : unmarkedEntries es = unmarkedEntries ds) :
      List.Forall₂ (fun p q => p.1 = q.1 ∧ Twin p.2 q.2) es ds := by
    rw [unmarkedEntries_eq, unmarkedEntries_eq] at h
    refine ((List.forall₂_and_left es ds).mpr ⟨ih, List.map_eq_map_iff_forall₂.mp h⟩).imp fun p q hpq => ?_
    obtain ⟨hkey, hvalue⟩ := Prod.mk.inj hpq.2
    exact ⟨hkey, hpq.1 hvalue⟩
  induction v using Value.nested generalizing w with
  | null | bool | int | float | str | datetime =>
      cases w <;> cases h
      exact refl _
  | list vs ih | tuple vs ih | set vs ih =>
      cases w <;> try cases h
      next ws =>
        simp only [unmarked, unmarkedItems_eq, list.injEq, tuple.injEq, set.injEq] at h
        have hitems : List.Forall₂ Twin vs ws :=
          ((List.forall₂_and_left vs ws).mpr ⟨ih, List.map_eq_map_iff_forall₂.mp h⟩).imp fun _ _ hvw => hvw.1 hvw.2
        first | exact .list hitems | exact .tuple hitems | exact .set hitems
  | map es ih =>
      cases w <;> try cases h
      next ds => exact map_iff.mpr (hentries ih (map.inj h))
  | entity e ih =>
      cases w <;> try cases h
      next d =>
        replace h : e.unmarked = d.unmarked := entity.inj h
        have htype : e.SameType d :=
          ⟨by rw [← e.unmarked_schema, h, d.unmarked_schema],
            by rw [← e.unmarked_version, h, d.unmarked_version]⟩
        refine entity_iff.mpr ⟨htype, hentries ih ?_⟩
        cases e
        cases d
        exact congrArg Entity.values h

/-- Items that are equal one by one are twins, if that holds of each. -/
theorem items_of_beq {vs ws : List Value}
    (ih : ∀ v ∈ vs, ∀ {w : Value}, beq v w = true → ∀ {ds es : List Entity},
      List.Forall₂ Entity.SameType (v.graph ++ ds) (w.graph ++ es) →
      v.Twin w ∧ List.Forall₂ Entity.SameType ds es)
    (h : beqItems vs ws = true) {ds es : List Entity}
    (htypes : List.Forall₂ Entity.SameType (itemGraph vs ++ ds) (itemGraph ws ++ es)) :
    List.Forall₂ Twin vs ws ∧ List.Forall₂ Entity.SameType ds es := by
  rw [beqItems_iff] at h
  induction h with
  | nil => exact ⟨.nil, htypes⟩
  | cons hvw _ ihvs =>
      obtain ⟨hv, hvs⟩ := List.forall_mem_cons.mp ih
      rw [itemGraph, itemGraph, List.append_assoc, List.append_assoc] at htypes
      obtain ⟨htwin, hrest⟩ := hv hvw htypes
      obtain ⟨htwins, hrest⟩ := ihvs hvs hrest
      exact ⟨.cons htwin htwins, hrest⟩

/-- The graphs of parts stand one after another, so the induction goes along the graphs, and hands
on what follows the part that it has seen. -/
theorem of_beq_append {v w : Value} (h : beq v w = true) {ds es : List Entity}
    (htypes : List.Forall₂ Entity.SameType (v.graph ++ ds) (w.graph ++ es)) :
    v.Twin w ∧ List.Forall₂ Entity.SameType ds es := by
  induction v using Value.nested generalizing w ds es with
  | null => cases w <;> first | exact ⟨.null, htypes⟩ | cases h
  | bool | int | str | datetime =>
      cases w <;> try cases h
      simp only [beq, beq_iff_eq] at h
      subst h
      exact ⟨refl _, htypes⟩
  | float x =>
      cases w <;> try cases h
      exact ⟨.float (Or.inr h), htypes⟩
  | list vs ih =>
      cases w <;> try cases h
      exact (items_of_beq ih h htypes).imp_left .list
  | tuple vs ih =>
      cases w <;> try cases h
      exact (items_of_beq ih h htypes).imp_left .tuple
  | set vs ih =>
      cases w <;> try cases h
      exact (items_of_beq ih h htypes).imp_left .set
  | map es ih =>
      cases w <;> try cases h
      rw [graph, graph, entryGraph_eq_itemGraph, entryGraph_eq_itemGraph] at htypes
      rw [beq, beqEntries_eq, Bool.and_eq_true, beq_iff_eq] at h
      exact (items_of_beq (List.forall_mem_map.mpr ih) h.2 htypes).imp_left (.map h.1)
  | entity e ih =>
      cases w <;> try cases h
      next d =>
        obtain ⟨s, version, context?, values, changed⟩ := e
        obtain ⟨t, version', context?', values', changed'⟩ := d
        rw [graph, graph, Entity.graph, Entity.graph, entryGraph_eq_itemGraph,
          entryGraph_eq_itemGraph] at htypes
        simp only [beq, Entity.beq, beqEntries_eq, Bool.and_eq_true, beq_iff_eq] at h
        obtain _ | ⟨htype, htypes⟩ := htypes
        exact (items_of_beq (List.forall_mem_map.mpr ih) h.2.2 htypes).imp_left
          (.entity htype h.2.1)

/-- Equal values are twins where the entities in them are of the same types. -/
theorem of_beq {v w : Value} (h : beq v w = true)
    (htypes : List.Forall₂ Entity.SameType v.graph w.graph) : v.Twin w := by
  have hwhole : List.Forall₂ Entity.SameType (v.graph ++ []) (w.graph ++ []) := by
    rwa [List.append_nil, List.append_nil]
  exact (of_beq_append h hwhole).1

/-! ## What twins share -/

theorem shape {v w : Value} (h : v.Twin w) : v.shape = w.shape := by
  cases h <;> rfl

theorem isNull {v w : Value} (h : v.Twin w) : v.isNull = w.isNull := by
  cases h <;> rfl

/-- The entities in twins are of the same types, place by place. -/
theorem graph {v w : Value} (h : v.Twin w) :
    List.Forall₂ Entity.SameType v.graph w.graph := by
  have hitems {vs ws : List Value}
      (ih : ∀ v ∈ vs, ∀ {w : Value}, v.Twin w → List.Forall₂ Entity.SameType v.graph w.graph)
      (h : List.Forall₂ Twin vs ws) :
      List.Forall₂ Entity.SameType (itemGraph vs) (itemGraph ws) := by
    rw [itemGraph_eq, itemGraph_eq]
    refine List.rel_flatMap ((List.forall₂_and_left vs ws).mpr ⟨ih, h⟩) ?_
    exact fun v w hvw => hvw.1 hvw.2
  induction v using Value.nested generalizing w with
  | null | bool | int | float | str | datetime =>
      cases h
      exact .nil
  | list vs ih | tuple vs ih | set vs ih =>
      cases h
      exact hitems ih ‹_›
  | map es ih =>
      cases h
      rw [Value.graph, Value.graph, entryGraph_eq_itemGraph, entryGraph_eq_itemGraph]
      exact hitems (List.forall_mem_map.mpr ih) ‹_›
  | entity e ih =>
      cases h with
      | @entity _ d htype _ h =>
          rw [Value.graph, Value.graph, Entity.graph_eq, Entity.graph_eq, ← entryGraph_eq,
            ← entryGraph_eq, entryGraph_eq_itemGraph, entryGraph_eq_itemGraph]
          exact .cons htype (hitems (List.forall_mem_map.mpr ih) h)

theorem beqItems_eq {vs vs' ws ws' : List Value}
    (ih : ∀ v ∈ vs, ∀ {v' w w' : Value}, v.Twin v' → w.Twin w' → beq v w = beq v' w')
    (hv : List.Forall₂ Twin vs vs') (hw : List.Forall₂ Twin ws ws') :
    beqItems vs ws = beqItems vs' ws' := by
  induction hv generalizing ws ws' with
  | nil => cases hw <;> rfl
  | cons hv _ ihvs =>
      obtain ⟨hhead, htail⟩ := List.forall_mem_cons.mp ih
      cases hw with
      | nil => rfl
      | cons hw hws => rw [beqItems, beqItems, hhead hv hw, ihvs htail hws]

/-- Equality does not tell twins apart. -/
theorem beq_eq {v v' w w' : Value} (hv : v.Twin v') (hw : w.Twin w') :
    beq v w = beq v' w' := by
  have hleft {x y z : Float} (h : x = y ∨ (x == y) = true) : (x == z) = (y == z) := by
    rcases h with rfl | h
    · rfl
    · exact Bool.eq_iff_iff.mpr
        ⟨fun hx => Float.beq_trans (Float.beq_symm h) hx, fun hy => Float.beq_trans h hy⟩
  have hright {x y z : Float} (h : x = y ∨ (x == y) = true) : (z == x) = (z == y) := by
    rcases h with rfl | h
    · rfl
    · exact Bool.eq_iff_iff.mpr
        ⟨fun hx => Float.beq_trans hx h, fun hy => Float.beq_trans hy (Float.beq_symm h)⟩
  induction v using Value.nested generalizing v' w w' with
  | null | bool | int | str | datetime =>
      cases hv
      cases hw <;> rfl
  | float x =>
      cases hv with
      | float hv =>
          cases hw with
          | float hw => exact (hleft hv).trans (hright hw)
          | _ => rfl
  | list vs ih | tuple vs ih | set vs ih =>
      cases hv
      cases hw <;> first | exact beqItems_eq ih ‹_› ‹_› | rfl
  | map es ih =>
      cases hv with
      | map hkeys hv =>
          cases hw with
          | map hkeys' hw =>
              rw [beq, beq, beqEntries_eq, beqEntries_eq, hkeys, hkeys',
                beqItems_eq (List.forall_mem_map.mpr ih) hv hw]
          | _ => rfl
  | entity e ih =>
      cases hv with
      | @entity _ e' htype hnames hv =>
          cases hw with
          | @entity d d' htype' hnames' hw =>
              have hvalues := beqItems_eq (List.forall_mem_map.mpr ih) hv hw
              obtain ⟨hschema, -⟩ := htype
              obtain ⟨hschema', -⟩ := htype'
              cases e
              cases e'
              cases d
              cases d'
              simp only at hschema hschema' hnames hnames' hvalues
              rw [beq, beq, Entity.beq, Entity.beq, beqEntries_eq, beqEntries_eq, hschema, hschema',
                hnames, hnames', hvalues]
          | _ => rfl

end Twin

end Value

/-! ## Storing twins -/

/-- A codec that does not tell twins apart: it writes them alike, markers aside, or refuses them
in the same way, and what it makes of a twin of a value that it stores is a twin again. -/
structure Codec.Evenhanded (c : Codec) : Prop where
  write : ∀ v w : Value, v.Twin w →
    (c.write v).Matching (Json.EqualWithout [Primitive.changesKey]) (c.write w)
  coerce : ∀ v u w : Value, v.Twin u → c.coerce v = .ok v → c.coerce u = .ok w → v.Twin w

section

variable [Codecs]

/-- The codecs that a kind names are evenhanded. -/
def Kind.Evenhanded : Kind → Prop
  | .custom c => (Codecs.codec c).Evenhanded
  | .list k | .set k | .dict k | .nullable k => k.Evenhanded
  | _ => True

theorem Kind.Plain.evenhanded {k : Kind} (hk : k.Plain) : k.Evenhanded := by
  induction k with
  | list k ih | set k ih | dict k ih | nullable k ih => exact ih hk
  | custom c => cases hk
  | _ => trivial

theorem Kind.Evenhanded.bare {k : Kind} (h : k.Evenhanded) : k.bare.Evenhanded := by
  induction k with
  | nullable k ih => exact ih h
  | _ => exact h

omit [Codecs] in
/-- Of distinct values, twins are distinct. -/
theorem Value.Twin.pairwise {vs ws : List Value} (h : List.Forall₂ Twin vs ws)
    (hvs : vs.Pairwise fun a b => (a == b) = false) :
    ws.Pairwise fun a b => (a == b) = false := by
  induction h with
  | nil => exact .nil
  | @cons v w vs ws hvw htwins ih =>
      obtain ⟨hv, hvs⟩ := List.pairwise_cons.mp hvs
      refine List.pairwise_cons.mpr ⟨fun b hb => ?_, ih hvs⟩
      obtain ⟨a, ha, hab⟩ := List.exists_of_mem_forall₂ htwins hb
      exact (beq_eq hvw hab).symm.trans (hv a ha)

/-- Where a kind stores a value, it makes a twin of the value of each twin that it takes. -/
theorem Kind.Stores.coerce_twin {k : Kind} {v u w : Value} (h : k.Stores v) (hk : k.Evenhanded)
    (htwin : v.Twin u) (hw : k.coerce u = .ok w) : v.Twin w := by
  -- A twin that is the value itself is stored unchanged.
  have hself {k : Kind} {v w : Value} (h : k.Stores v) (hw : k.coerce v = .ok w) : v.Twin w := by
    rw [h.coerce] at hw
    cases hw
    exact .refl v
  have hitems {k : Kind} {vs us ws : List Value}
      (ih : ∀ v ∈ vs, ∀ {u w : Value}, v.Twin u → k.coerce u = .ok w → v.Twin w)
      (htwins : List.Forall₂ Value.Twin vs us) (hws : us.mapM k.coerce = .ok ws) :
      List.Forall₂ Value.Twin vs ws :=
    List.forall₂_of_forall₂ htwins (List.mapM_eq_ok_iff.mp hws) fun v hv u w => ih v hv
  induction h generalizing u w with
  | null =>
      cases htwin
      exact hself .null hw
  | @nullable k v hv ih =>
      rw [Kind.coerce] at hw
      split at hw
      · next hnull =>
          cases hw
          obtain rfl := Value.eq_null_of_isNull hnull
          exact htwin
      · exact ih hk htwin hw
  | integer hn =>
      cases htwin
      exact hself (.integer hn) hw
  | float hx =>
      cases htwin with
      | float h =>
          obtain ⟨y, hy, hw⟩ := Except.bind_eq_ok_iff.mp hw
          cases hy
          split at hw
          · cases hw
          · cases hw
            exact .float h
  | string | boolean | datetime =>
      cases htwin
      cases hw
      exact .refl _
  | uuid hs =>
      cases htwin
      exact hself (.uuid hs) hw
  | address hs =>
      cases htwin
      exact hself (.address hs) hw
  | enum hs =>
      cases htwin
      exact hself (.enum hs) hw
  | list _ ih =>
      cases htwin with
      | list htwins =>
          obtain ⟨ws, hws, rfl⟩ := Except.map_eq_ok_iff.mp hw
          exact .list (hitems (fun v hv _ _ => ih v hv hk) htwins hws)
  | set _ hdedup ih =>
      cases htwin with
      | set htwins =>
          obtain ⟨ws, hws, rfl⟩ := Except.map_eq_ok_iff.mp hw
          have htwins := hitems (fun v hv _ _ => ih v hv hk) htwins hws
          have hpairwise := Value.Twin.pairwise htwins (hdedup ▸ Value.pairwise_dedup _)
          rw [Value.setOf, Value.dedup_of_pairwise hpairwise]
          exact .set htwins
  | dict _ ih =>
      have hentries := htwin
      cases htwin with
      | map =>
          obtain ⟨ds, hds, rfl⟩ := Except.map_eq_ok_iff.mp hw
          refine Value.Twin.map_iff.mpr (List.forall₂_of_forall₂ (Value.Twin.map_iff.mp hentries)
            (List.mapM_eq_ok_iff.mp hds) fun p hp q r hpq hqr => ?_)
          obtain ⟨w, hw, rfl⟩ := Except.map_eq_ok_iff.mp hqr
          exact ⟨hpq.1, ih p hp hk hpq.2 hw⟩
  | object =>
      cases htwin with
      | entity htype hnames h =>
          obtain ⟨rfl, -⟩ := coerceObject_eq_ok_iff.mp hw
          exact .entity htype hnames h
  | listOfObjects hvs =>
      cases htwin with
      | list htwins =>
          obtain ⟨ws, hws, rfl⟩ := Except.map_eq_ok_iff.mp hw
          obtain ⟨rfl, -⟩ := mapM_coerceObject_eq_ok_iff.mp hws
          exact .list htwins
  | custom hv => exact hk.coerce _ _ _ htwin hv (Except.mapError_eq_ok_iff.mp hw)

/-- Where a field stores a value, it makes a twin of the value of each twin that it takes. -/
theorem Field.coerce_twin {f : Field} (hk : f.kind.Evenhanded) {v u w : Value}
    (h : f.coerce v = .ok v) (htwin : v.Twin u) (hw : f.coerce u = .ok w) : v.Twin w := by
  cases hnull : v.isNull with
  | true =>
      cases htwin <;> cases hnull
      rw [h] at hw
      cases hw
      exact .null
  | false =>
      rw [f.coerce_of_not_null hnull] at h
      rw [f.coerce_of_not_null (htwin.isNull ▸ hnull)] at hw
      exact (Kind.stores_of_coerce h).coerce_twin hk htwin hw

/-! ## Writing twins -/

variable {names : List String}

omit [Codecs] in
theorem Value.Twin.writeScalar? {v w : Value} (h : v.Twin w) (k : Kind) :
    Option.Rel (Json.EqualWithout names) (v.writeScalar? k) (w.writeScalar? k) := by
  have hself (v : Value) :
      Option.Rel (Json.EqualWithout names) (v.writeScalar? k) (v.writeScalar? k) := by
    cases hj : v.writeScalar? k with
    | none => exact .none
    | some j => exact .some (alikeWithout_writeScalar hj).equal
  cases h with
  | float h =>
      rcases h with rfl | h
      · exact hself _
      · cases k <;> try exact .none
        simp only [Value.writeScalar?, Json.ofFloat?, Float.isFinite_of_beq h]
        split
        · exact .some (.float h)
        · exact .none
  | null | bool | int | str | datetime => exact hself _
  | _ => exact .none

section

variable (hnames : Primitive.changesKey ∈ names)
include hnames

theorem Value.Twin.writeLeaf {v w : Value} (h : v.Twin w) (field : String) {k : Kind}
    (hk : k.Evenhanded) :
    (v.writeLeaf field k).Matching (Json.EqualWithout names) (w.writeLeaf field k) := by
  have hscalar : Option.Rel (Json.EqualWithout names) (v.writeScalar? k) (w.writeScalar? k) :=
    h.writeScalar? k
  cases k with
  | custom c =>
      refine ((hk.write v w h).imp fun i j hij => ?_).mapError _
      exact hij.mono (List.forall_mem_singleton.mpr hnames)
  | _ =>
      simp only [Value.writeLeaf, h.shape]
      generalize v.writeScalar? _ = x, w.writeScalar? _ = y at hscalar
      cases hscalar with
      | none => exact .error _
      | some hij => exact .ok hij

/-- Containers are written alike if their elements are, one by one, by every kind. -/
theorem Value.Twin.write_items {v w : Value} {vs ws : List Value} (h : v.Twin w)
    (hv : v.items? = some vs) (hw : w.items? = some ws) (htwins : List.Forall₂ Twin vs ws)
    {field : String} (ih : ∀ v ∈ vs, ∀ {w : Value}, v.Twin w → ∀ {k : Kind}, k.Evenhanded →
      (v.write field k).Matching (Json.EqualWithout names) (w.write field k))
    {k : Kind} (hk : k.Evenhanded) :
    (v.write field k).Matching (Json.EqualWithout names) (w.write field k) := by
  have hboth := (List.forall₂_and_left vs ws).mpr ⟨ih, htwins⟩
  have hitems {k : Kind} (hk : k.Evenhanded) :
      ((vs.mapM fun v : Value => v.write field k).map Json.arr).Matching (Json.EqualWithout names)
        ((ws.mapM fun w : Value => w.write field k).map Json.arr) :=
    (List.mapM_matching (hboth.imp fun v w hvw => hvw.1 hvw.2 hk)).map fun _ _ => .arr
  induction k with
  | list k =>
      rw [write_list hv, write_list hw]
      exact hitems hk
  | set k =>
      rw [write_set hv, write_set hw]
      exact hitems hk
  | listOfObjects type =>
      rw [write_listOfObjects hv, write_listOfObjects hw, h.shape]
      refine (List.mapM_matching (hboth.imp fun v w hvw => ?_)).map fun _ _ => .arr
      have hobject := hvw.1 hvw.2 (k := .object "") trivial
      obtain ⟨-, htwin⟩ := hvw
      cases htwin with
      | entity => exact hobject
      | _ => exact .error _
  | nullable k ih =>
      rw [v.write_nullable, w.write_nullable]
      exact ih hk
  | _ =>
      have hleaf := h.writeLeaf hnames field hk
      cases v <;> cases hv <;> cases w <;> cases hw <;> exact hleaf

theorem Value.Twin.write_entries {es ds : List (String × Value)} (h : (Value.map es).Twin (.map ds))
    {field : String} (ih : ∀ p ∈ es, ∀ {w : Value}, p.2.Twin w → ∀ {k : Kind}, k.Evenhanded →
      (p.2.write field k).Matching (Json.EqualWithout names) (w.write field k))
    {k : Kind} (hk : k.Evenhanded) :
    ((Value.map es).write field k).Matching (Json.EqualWithout names)
      ((Value.map ds).write field k) := by
  induction k with
  | dict k =>
      rw [write_dict, write_dict, mapEntriesM, mapEntriesM]
      have hboth := (List.forall₂_and_left es ds).mpr ⟨ih, map_iff.mp h⟩
      refine (List.mapM_matching (hboth.imp fun p q hpq => ?_)).map fun _ _ => .obj
      obtain ⟨hwrite, hkey, htwin⟩ := hpq
      exact (hwrite htwin (k := k) hk).map fun _ _ hij => ⟨hkey, hij⟩
  | nullable k ih =>
      rw [write_nullable, write_nullable]
      exact ih hk
  | _ => exact h.writeLeaf hnames field hk

omit hnames in
/-- Values of fields that are written alike make data that is alike. -/
theorem Entity.data_twin {e d : Entity} (hschema : e.schema = d.schema)
    (hvalues : List.Forall₂ (fun p q => p.1 = q.1 ∧ ∀ f : Field, (p.1, f) ∈ e.schema.fields →
      (p.2.write p.1 f.kind).Matching (Json.EqualWithout names) (q.2.write p.1 f.kind))
      e.values d.values) :
    e.data.Matching (List.Forall₂ fun m n => m.1 = n.1 ∧ Json.EqualWithout names m.2 n.2)
      d.data := by
  rw [data_eq_gather, data_eq_gather, ← hschema]
  refine Record.gather_matching (fun p hp => ?_) .nil
  rw [writeField, writeField]
  rcases Record.get?_of_forall₂ hvalues p.1 with ⟨hv, hw⟩ | ⟨v, w, hv, hw, hwrite⟩
  · rw [hv, hw]
    exact .none
  · rw [hv, hw]
    exact .some (hwrite p.2 hp)

omit hnames in
/-- The primitives of entities of one type are equal if their data is. -/
theorem Entity.write_twin (hnames : Primitive.changesKey ∈ names) {e d : Entity}
    (htype : e.SameType d)
    (hdata : e.data.Matching
      (List.Forall₂ fun m n => m.1 = n.1 ∧ Json.EqualWithout names m.2 n.2) d.data) :
    e.write.Matching (fun p q => Json.EqualWithout names p.toJson q.toJson) d.write := by
  rw [write_eq, write_eq]
  refine hdata.map fun _ _ hmembers => .toJson hnames rfl ?_ ?_ (.obj hmembers)
  · exact congrArg Schema.name htype.schema
  · exact congrArg Version.text htype.version

/-- Twins are written alike by a kind, markers aside. -/
theorem Value.Twin.write {v w : Value} (h : v.Twin w)
    (hkinds : ∀ d ∈ v.graph, ∀ p ∈ d.schema.fields, p.2.kind.Evenhanded) (field : String)
    {k : Kind} (hk : k.Evenhanded) :
    (v.write field k).Matching (Json.EqualWithout names) (w.write field k) := by
  induction v using Value.nested generalizing w field k with
  | null =>
      cases h
      exact .ok .null
  | bool | int | float | str | datetime =>
      have hleaf := h.writeLeaf hnames field hk.bare
      cases h
      exact hleaf
  | list vs ih | tuple vs ih | set vs ih =>
      have htwin := h
      cases h
      exact htwin.write_items hnames rfl rfl ‹_› (fun v hv w hvw k hk =>
        ih v hv hvw (forall_graph_items hkinds v hv) field hk) hk
  | map es ih =>
      have htwin := h
      cases h
      exact htwin.write_entries hnames (fun p hp w hpw k hk =>
        ih p hp hpw (forall_graph_entries hkinds p hp) field hk) hk
  | entity e ih =>
      have hleaf := h.writeLeaf hnames field hk.bare
      have htwin := h
      cases h with
      | @entity _ d =>
          obtain ⟨htype, hvalues⟩ := entity_iff.mp htwin
          have hwritten : ∀ p ∈ e.values, ∀ {w : Value}, p.2.Twin w → ∀ f : Field,
              (p.1, f) ∈ e.schema.fields →
              (p.2.write p.1 f.kind).Matching (Json.EqualWithout names) (w.write p.1 f.kind) :=
            fun p hp w hpw f hf => ih p hp hpw (Entity.forall_graph_values hkinds p hp) p.1
              (hkinds e e.self_mem_graph _ hf)
          have hboth := (List.forall₂_and_left e.values d.values).mpr ⟨hwritten, hvalues⟩
          have hwrite := Entity.write_twin hnames htype (Entity.data_twin htype.schema
            (hboth.imp fun p q hpq => ⟨hpq.2.1, hpq.1 hpq.2.2⟩))
          simp only [Value.write]
          generalize k.bare = bare at hleaf
          cases bare with
          | object type => exact hwrite.map fun _ _ hpq => hpq
          | _ => exact hleaf

/-- Twin entities have equal primitives, or fail in the same way. -/
theorem Entity.write_of_twin {e d : Entity} (h : (Value.entity e).Twin (.entity d))
    (hkinds : ∀ c ∈ e.graph, ∀ p ∈ c.schema.fields, p.2.kind.Evenhanded) :
    e.write.Matching (fun p q => Json.EqualWithout names p.toJson q.toJson) d.write :=
  (h.write hnames hkinds "" (k := .object "") trivial).of_map

end

end

end Skew
