import Singa.Base.Events
import Singa.Web.Editor

/-!
# Which fields are left in a message

The page always shows the original and cloned fields without those that have
been destroyed. `Message.fields` agrees with it as long as every field that is
destroyed is the last one of the list: `removeField()` finds no field, and
`splice` takes position -1 from the end.
-/

namespace Singa.Web
set_option autoImplicit false

open Events

/-- A message; every field has an id of its own, which `Field.nextId` has given before. -/
structure Message where
  fields : List LiveField
  nextId : Nat
  distinct : (fields.map LiveField.id).Nodup
  used : ∀ f ∈ fields, f.id < nextId

/-- A page, the ids of the fields that have been on it, and of those on which `destroy` was invoked. -/
structure Session where
  page : Page
  made : List Nat
  destroyed : List Nat

/-- A message that has been rendered. -/
def Message.start (m : Message) : Session := ⟨⟨m.fields, m.fields, m.nextId⟩, m.fields.map LiveField.id, []⟩

variable (s : Schema) (md : MessageDef)

/-- The field that a click adds. -/
def clonedBy (page : Page) : Press → Option Nat
  | .plus id =>
    match button page id with
    | some f =>
      match (f.clone s page.nextId).1 with
      | .ok newField => some newField.id
      | .error _ => none
    | none => none
  | .minus _ => none

/-- The field on which a click invokes `destroy`. -/
def destroyedBy (page : Page) : Press → Option Nat
  | .plus _ => none
  | .minus id =>
    match button page id with
    | some f => if alone page f then none else some f.id
    | none => none

def Session.press (t : Session) (p : Press) : Option Session :=
  (Web.press s md t.page p).map fun page =>
    ⟨page, t.made ++ (clonedBy s t.page p).toList, t.destroyed ++ (destroyedBy t.page p).toList⟩

/-- The list of a message: the fields that have not been destroyed, in order, and `toConf` prints these. -/
structure Kept (t : Session) : Prop where
  exactly : ∀ id, id ∈ t.page.fields.map LiveField.id ↔ id ∈ t.made ∧ id ∉ t.destroyed
  ordered : t.page.fields.Pairwise fun a b => compareField s md a b = -1
  prints : toConf s.pkg [] (plains t.page.fields) = toConf s.pkg [] (plains (sortField s md t.page.shown))

/-! ## Order -/

/-- What fields are sorted by. -/
def sortKey (f : LiveField) : ℕ ×ₗ ℕ := toLex (s.defId md.name f.d.name, f.id)

variable {s md}

theorem compareField_eq_neg {a b : LiveField} : compareField s md a b = -1 ↔ sortKey s md a < sortKey s md b := by
  unfold compareField sortKey
  rw [Prod.Lex.toLex_lt_toLex]
  split_ifs <;> simp <;> omega

theorem compareField_le_zero {a b : LiveField} : compareField s md a b ≤ 0 ↔ sortKey s md a ≤ sortKey s md b := by
  unfold compareField sortKey
  rw [Prod.Lex.toLex_le_toLex]
  split_ifs <;> simp <;> omega

theorem sortField_perm (s : Schema) (md : MessageDef) (fields : List LiveField) : (sortField s md fields).Perm fields :=
  List.perm_insertionSort _ _

/-- Fields that are told apart by their ids are in order after `sortField`. -/
theorem sortField_ordered (s : Schema) (md : MessageDef) {fields : List LiveField} (distinct : (fields.map LiveField.id).Nodup) :
    (sortField s md fields).Pairwise fun a b => compareField s md a b = -1 := by
  have total : Std.Total fun a b : LiveField => compareField s md a b ≤ 0 :=
    ⟨fun a b => by rw [compareField_le_zero, compareField_le_zero]; exact le_total _ _⟩
  have trans : IsTrans LiveField fun a b => compareField s md a b ≤ 0 :=
    ⟨fun a b c => by rw [compareField_le_zero, compareField_le_zero, compareField_le_zero]; exact le_trans⟩
  have sorted := List.pairwise_insertionSort (fun a b : LiveField => compareField s md a b ≤ 0) fields
  have apart : (sortField s md fields).Pairwise fun a b => a.id ≠ b.id := by
    rw [← List.pairwise_map (f := LiveField.id) (R := (· ≠ ·))]
    exact ((sortField_perm s md fields).map LiveField.id).nodup_iff.mpr distinct
  refine sorted.imp₂ (fun a b le other => ?_) apart
  rw [compareField_le_zero] at le
  rw [compareField_eq_neg]
  refine lt_of_le_of_ne le fun same => other ?_
  exact congrArg (fun k => (ofLex k).2) same

theorem ordered_distinct {fields : List LiveField} (ordered : fields.Pairwise fun a b => compareField s md a b = -1) :
    fields.Nodup := by
  refine ordered.imp fun {a b} before same => ?_
  rw [compareField_eq_neg, same] at before
  exact lt_irrefl _ before

/-- Two lists of the same fields in order are the same. -/
theorem ordered_unique {fields fields' : List LiveField} (perm : fields.Perm fields')
    (ordered : fields.Pairwise fun a b => compareField s md a b = -1)
    (ordered' : fields'.Pairwise fun a b => compareField s md a b = -1) : fields = fields' := by
  refine perm.eq_of_pairwise (fun a b _ _ ab ba => ?_) ordered ordered'
  rw [compareField_eq_neg] at ab ba
  exact absurd (ab.trans ba) (lt_irrefl _)

/-! ## Clones -/

mutual

/-- A clone takes the next id, and more for the fields of its message. -/
theorem LiveField.clone_spec (next : Nat) : ∀ f : LiveField, next < (f.clone s next).2 ∧
    ∀ newField, (f.clone s next).1 = .ok newField → newField.id = next
  | .mk _ d value _ none => by
    rw [LiveField.clone]
    split
    · refine ⟨Nat.lt_succ_self next, fun newField made => ?_⟩
      cases made
      rfl
    · refine ⟨Nat.lt_succ_self next, fun newField made => ?_⟩
      cases made
      rfl
  | .mk _ d value _ (some fields) => by
    rw [LiveField.clone]
    split
    · refine ⟨Nat.lt_succ_self next, fun newField made => ?_⟩
      cases made
      rfl
    · next md _ =>
      have later := cloneFields_spec (next + 1 + md.fields.length) fields
      split
      · next e next' stopped =>
        rw [stopped] at later
        exact ⟨by dsimp only at later ⊢; omega, fun newField made => by cases made⟩
      · next fields' next' run =>
        rw [run] at later
        dsimp only at later
        split
        · refine ⟨by dsimp only; omega, fun newField made => ?_⟩
          cases made
          rfl
        · exact ⟨by dsimp only; omega, fun newField made => by cases made⟩

theorem cloneFields_spec (next : Nat) : ∀ fields : List LiveField, next ≤ (cloneFields s next fields).2
  | [] => le_rfl
  | f :: fields => by
    obtain ⟨first, -⟩ := LiveField.clone_spec next f
    rw [cloneFields]
    split
    · next e next' stopped =>
      rw [stopped] at first
      exact first.le
    · next f' next' run =>
      rw [run] at first
      have later := cloneFields_spec next' fields
      split
      · next e next'' stopped =>
        rw [stopped] at later
        exact first.le.trans later
      · next fields' next'' rest =>
        rw [rest] at later
        exact first.le.trans later

end

theorem LiveField.showMessage_spec (next : Nat) (f : LiveField) :
    (f.showMessage s next).1.id = f.id ∧ next ≤ (f.showMessage s next).2 := by
  rcases f with ⟨id, d, value, drawn, none | fields⟩
  · rw [LiveField.showMessage]
    split
    · exact ⟨rfl, Nat.le_add_right next _⟩
    · exact ⟨rfl, le_rfl⟩
  · exact ⟨rfl, le_rfl⟩

theorem LiveField.empty_spec (f : LiveField) : (f.empty s).id = f.id ∧ (f.empty s).d = f.d := by
  obtain ⟨id, d, value, drawn, message⟩ := f
  rw [LiveField.empty]
  split
  · split <;> exact ⟨rfl, rfl⟩
  · exact ⟨rfl, rfl⟩

/-! ## What a click does -/

/-- The last field is removed, whichever was meant. -/
theorem removeField_none (fields : List LiveField) : removeField fields none = fields.dropLast := by
  unfold removeField indexOfField splice
  dsimp only
  rw [if_pos (show (-1 : Int) < 0 by decide), List.dropLast_eq_take]
  cases fields with
  | nil => rfl
  | cons f fields =>
    have position : (((f :: fields).length : Int) + -1).toNat = (f :: fields).length - 1 := by
      rw [List.length_cons]
      omega
    rw [position, List.drop_eq_nil_of_le (by rw [List.length_cons]; omega), List.append_nil]

/-- The sessions after a click, with the field on which it invokes `destroy`. -/
inductive Effect (s : Schema) (md : MessageDef) (t : Session) : Option Nat → Session → Prop where
  | stopped (next : Nat) (later : t.page.nextId ≤ next) :
      Effect s md t none ⟨{ t.page with nextId := next }, t.made, t.destroyed⟩
  | cloned (f newField : LiveField) (next : Nat) (mem : f ∈ t.page.shown) (fresh : newField.id = t.page.nextId)
      (later : newField.id < next) :
      Effect s md t none ⟨⟨sortField s md (t.page.fields ++ [newField]), insertAfter f newField t.page.shown, next⟩,
        t.made ++ [newField.id], t.destroyed⟩
  | emptied (f f' : LiveField) (mem : f ∈ t.page.shown) (same : f'.id = f.id ∧ f'.d = f.d) :
      Effect s md t none
        ⟨{ t.page with fields := update f' t.page.fields, shown := update f' t.page.shown }, t.made, t.destroyed⟩
  | destroyed (f : LiveField) (mem : f ∈ t.page.shown) :
      Effect s md t (some f.id)
        ⟨{ t.page with fields := t.page.fields.dropLast, shown := t.page.shown.filter fun g => g.id ≠ f.id }, t.made,
          t.destroyed ++ [f.id]⟩

theorem press_effect {t t' : Session} {p : Press} (pass : t.press s md p = some t') :
    Effect s md t (destroyedBy t.page p) t' := by
  unfold Session.press at pass
  obtain ⟨page, pressed, rfl⟩ := Option.map_eq_some_iff.mp pass
  cases p with
  | plus id =>
    obtain ⟨f, found, rfl⟩ := Option.map_eq_some_iff.mp pressed
    obtain ⟨later, made⟩ := f.clone_spec (s := s) t.page.nextId
    unfold plus clonedBy destroyedBy
    dsimp only
    rw [found, Option.toList_none, List.append_nil]
    dsimp only
    split
    · next e next stopped =>
      rw [stopped] at later
      rw [stopped]
      dsimp only [Option.toList_none]
      rw [List.append_nil]
      exact .stopped next later.le
    · next newField next run =>
      rw [run] at later made
      obtain ⟨same, more⟩ := newField.showMessage_spec (s := s) next
      have fresh := made newField rfl
      rw [run]
      dsimp only [Option.toList_some]
      rw [← same]
      exact .cloned f _ _ (List.mem_of_find?_eq_some found) (same.trans fresh)
        (by rw [same, fresh]; exact later.trans_le more)
  | minus id =>
    obtain ⟨f, found, rfl⟩ := Option.map_eq_some_iff.mp pressed
    unfold minus clonedBy destroyedBy
    dsimp only
    rw [found, Option.toList_none, List.append_nil]
    dsimp only
    split
    · dsimp only [Option.toList_none]
      rw [List.append_nil]
      exact .emptied f _ (List.mem_of_find?_eq_some found) f.empty_spec
    · dsimp only [Option.toList_some]
      rw [destroy, removeField_none]
      exact .destroyed f (List.mem_of_find?_eq_some found)

/-! ## The page -/

theorem insertAfter_perm {f : LiveField} (newField : LiveField) {shown : List LiveField} (mem : f ∈ shown) :
    (insertAfter f newField shown).Perm (newField :: shown) := by
  induction shown with
  | nil => cases mem
  | cons g shown ih =>
    rw [insertAfter]
    split
    · exact .swap newField g shown
    · next other =>
      have later : f ∈ shown := (List.mem_cons.mp mem).resolve_left fun same => other (congrArg LiveField.id same.symm)
      exact ((ih later).cons g).trans (.swap newField g shown)

theorem update_id (f : LiveField) (fields : List LiveField) :
    (update f fields).map LiveField.id = fields.map LiveField.id := by
  rw [update, List.map_map]
  apply List.map_congr_left
  intro g _
  show (if g.id = f.id then f else g).id = g.id
  split
  · next here => exact here.symm
  · rfl

/-- What holds of every session: the page shows the fields that are left, and no id is given twice. -/
structure Tracks (t : Session) : Prop where
  left : ∀ id, id ∈ t.page.shown.map LiveField.id ↔ id ∈ t.made ∧ id ∉ t.destroyed
  distinct : (t.page.shown.map LiveField.id).Nodup
  apart : (t.page.fields.map LiveField.id).Nodup
  used : ∀ f ∈ t.page.fields, f.id < t.page.nextId
  given : ∀ id ∈ t.made, id < t.page.nextId
  gone : ∀ id ∈ t.destroyed, id ∈ t.made
  same : ∀ f ∈ t.page.fields, ∀ g ∈ t.page.shown, f.id = g.id → f = g

theorem Tracks.start (m : Message) : Tracks m.start where
  left id := by simp [Message.start]
  distinct := m.distinct
  apart := m.distinct
  used := m.used
  given id mem := by
    obtain ⟨f, there, rfl⟩ := List.mem_map.mp mem
    exact m.used f there
  gone id mem := by cases mem
  same f memF g memG ids := List.inj_on_of_nodup_map m.distinct memF memG ids

theorem Tracks.shown_used {t : Session} (tracks : Tracks t) {g : LiveField} (mem : g ∈ t.page.shown) :
    g.id < t.page.nextId :=
  tracks.given g.id ((tracks.left g.id).mp (List.mem_map_of_mem mem)).1

/-- A field with a new id is told apart from all that are listed. -/
theorem distinct_of_fresh {fields fields' : List LiveField} {newField : LiveField} (distinct : (fields.map LiveField.id).Nodup)
    (used : ∀ f ∈ fields, f.id < newField.id) (perm : fields'.Perm (newField :: fields)) :
    (fields'.map LiveField.id).Nodup := by
  rw [(perm.map LiveField.id).nodup_iff, List.map_cons, List.nodup_cons]
  refine ⟨fun there => ?_, distinct⟩
  obtain ⟨g, mem, ids⟩ := List.mem_map.mp there
  have := used g mem
  omega

theorem Tracks.cloned {t : Session} (tracks : Tracks t) {f newField : LiveField} {next : Nat} (mem : f ∈ t.page.shown)
    (fresh : newField.id = t.page.nextId) (later : newField.id < next) :
    Tracks ⟨⟨sortField s md (t.page.fields ++ [newField]), insertAfter f newField t.page.shown, next⟩,
      t.made ++ [newField.id], t.destroyed⟩ := by
  have shown := insertAfter_perm newField mem
  have fields : (sortField s md (t.page.fields ++ [newField])).Perm (newField :: t.page.fields) :=
    (sortField_perm s md _).trans (List.perm_append_singleton _ _)
  have below : ∀ g ∈ t.page.fields, g.id < newField.id := fun g there => fresh ▸ tracks.used g there
  have below' : ∀ g ∈ t.page.shown, g.id < newField.id := fun g there => fresh ▸ tracks.shown_used there
  refine ⟨fun id => ?_, distinct_of_fresh tracks.distinct below' shown, distinct_of_fresh tracks.apart below fields,
    fun g there => ?_, fun id there => ?_, fun id there => ?_, fun g there g' there' ids => ?_⟩
  · have old : newField.id ∉ t.destroyed := by
      intro there
      have := tracks.given _ (tracks.gone _ there)
      omega
    dsimp only
    rw [(shown.map LiveField.id).mem_iff, List.map_cons, List.mem_cons, tracks.left, List.mem_append, List.mem_singleton]
    constructor
    · rintro (rfl | ⟨made, left⟩)
      · exact ⟨.inr rfl, old⟩
      · exact ⟨.inl made, left⟩
    · rintro ⟨made | rfl, left⟩
      · exact .inr ⟨made, left⟩
      · exact .inl rfl
  · show g.id < next
    rcases List.mem_cons.mp (fields.mem_iff.mp there) with rfl | there
    · exact later
    · exact (below g there).trans later
  · show id < next
    rcases List.mem_append.mp there with there | there
    · have := tracks.given id there
      omega
    · rw [List.mem_singleton.mp there]
      exact later
  · exact List.mem_append_left _ (tracks.gone id there)
  · -- the new id is greater than all that have been given
    rcases List.mem_cons.mp (fields.mem_iff.mp there) with rfl | old
    · rcases List.mem_cons.mp (shown.mem_iff.mp there') with rfl | old'
      · rfl
      · exact absurd ids.symm (below' g' old').ne
    · rcases List.mem_cons.mp (shown.mem_iff.mp there') with rfl | old'
      · exact absurd ids (below g old).ne
      · exact tracks.same g old g' old' ids

theorem Tracks.emptied {t : Session} (tracks : Tracks t) (f : LiveField) :
    Tracks ⟨{ t.page with fields := update f t.page.fields, shown := update f t.page.shown }, t.made, t.destroyed⟩ := by
  refine ⟨fun id => ?_, ?_, ?_, fun g there => ?_, tracks.given, tracks.gone, fun g there g' there' ids => ?_⟩
  · show id ∈ (update f t.page.shown).map LiveField.id ↔ _
    rw [update_id]
    exact tracks.left id
  · show ((update f t.page.shown).map LiveField.id).Nodup
    rw [update_id]
    exact tracks.distinct
  · show ((update f t.page.fields).map LiveField.id).Nodup
    rw [update_id]
    exact tracks.apart
  · have listed : g.id ∈ (update f t.page.fields).map LiveField.id := List.mem_map_of_mem there
    rw [update_id] at listed
    obtain ⟨h, mem, ids⟩ := List.mem_map.mp listed
    rw [← ids]
    exact tracks.used h mem
  · obtain ⟨h, mem, rfl⟩ := List.mem_map.mp there
    obtain ⟨h', mem', rfl⟩ := List.mem_map.mp there'
    by_cases here : h.id = f.id
    · rw [if_pos here] at ids ⊢
      split at ids
      · rw [if_pos ‹_›]
      · next other => exact absurd ids.symm other
    · rw [if_neg here] at ids ⊢
      split at ids
      · exact absurd ids here
      · rw [if_neg ‹_›]
        exact tracks.same h mem h' mem' ids

theorem Tracks.destroyed_one {t : Session} (tracks : Tracks t) {f : LiveField} (mem : f ∈ t.page.shown) :
    Tracks ⟨{ t.page with fields := t.page.fields.dropLast, shown := t.page.shown.filter fun g => g.id ≠ f.id }, t.made,
      t.destroyed ++ [f.id]⟩ := by
  refine ⟨fun id => ?_, tracks.distinct.sublist (List.filter_sublist.map LiveField.id),
    tracks.apart.sublist ((List.dropLast_sublist _).map LiveField.id),
    fun g there => tracks.used g (List.mem_of_mem_dropLast there), tracks.given, fun id there => ?_,
    fun g there g' there' => tracks.same g (List.mem_of_mem_dropLast there) g' (List.mem_of_mem_filter there')⟩
  · rw [List.mem_append, List.mem_singleton, not_or, ← and_assoc, ← tracks.left, List.mem_map, List.mem_map]
    constructor
    · rintro ⟨g, there, rfl⟩
      obtain ⟨there, other⟩ := List.mem_filter.mp there
      exact ⟨⟨g, there, rfl⟩, of_decide_eq_true other⟩
    · rintro ⟨⟨g, there, rfl⟩, other⟩
      exact ⟨g, List.mem_filter.mpr ⟨there, decide_eq_true other⟩, rfl⟩
  · rcases List.mem_append.mp there with there | there
    · exact tracks.gone id there
    · rw [List.mem_singleton.mp there]
      exact ((tracks.left f.id).mp (List.mem_map_of_mem mem)).1

theorem Tracks.effect {t t' : Session} {o : Option Nat} (tracks : Tracks t) (effect : Effect s md t o t') : Tracks t' := by
  cases effect with
  | stopped next later =>
    exact ⟨tracks.left, tracks.distinct, tracks.apart, fun f mem => (tracks.used f mem).trans_le later,
      fun id mem => (tracks.given id mem).trans_le later, tracks.gone, tracks.same⟩
  | cloned f newField next mem fresh later => exact tracks.cloned mem fresh later
  | emptied f f' mem same => exact tracks.emptied f'
  | destroyed f mem => exact tracks.destroyed_one mem

/-! ## The list -/

/-- The list is as it should be if it is what the page shows, in order. -/
theorem kept_iff_sorted {t : Session} (tracks : Tracks t) : Kept s md t ↔ t.page.fields = sortField s md t.page.shown := by
  have sorted := sortField_ordered s md tracks.distinct
  constructor
  · rintro ⟨exactly, ordered, -⟩
    refine ordered_unique ?_ ordered sorted
    refine List.Perm.trans ?_ (sortField_perm s md _).symm
    rw [List.perm_ext_iff_of_nodup (ordered_distinct ordered) tracks.distinct.of_map]
    intro f
    constructor
    · intro mem
      have listed := (tracks.left f.id).mpr ((exactly f.id).mp (List.mem_map_of_mem mem))
      obtain ⟨g, there, ids⟩ := List.mem_map.mp listed
      rw [tracks.same f mem g there ids.symm]
      exact there
    · intro mem
      have listed := (exactly f.id).mpr ((tracks.left f.id).mp (List.mem_map_of_mem mem))
      obtain ⟨g, there, ids⟩ := List.mem_map.mp listed
      rw [← tracks.same g there f mem ids]
      exact there
  · intro whole
    refine ⟨fun id => ?_, whole ▸ sorted, by rw [whole]⟩
    rw [whole, ((sortField_perm s md _).map LiveField.id).mem_iff]
    exact tracks.left id

/-- Where the last of some fields is dropped, and another one is filtered. -/
theorem dropLast_filter {fields : List LiveField} {f : LiveField} (distinct : (fields.map LiveField.id).Nodup)
    (mem : f ∈ fields) : (∀ g, g ∈ fields.dropLast ↔ g ∈ fields ∧ g.id ≠ f.id) ↔
      (fields.map LiveField.id).getLast? = some f.id := by
  have nonempty := List.ne_nil_of_mem mem
  obtain ⟨init, last, rfl⟩ : ∃ init last, fields = init ++ [last] :=
    ⟨_, _, (List.dropLast_append_getLast nonempty).symm⟩
  rw [List.map_append, List.nodup_append] at distinct
  obtain ⟨-, -, apart⟩ := distinct
  have other : ∀ g ∈ init, g.id ≠ last.id := fun g there =>
    apart g.id (List.mem_map_of_mem there) last.id (by simp)
  rw [List.dropLast_concat, List.map_append, List.map_singleton, List.getLast?_concat]
  constructor
  · intro same
    by_contra missed
    have there : last ∈ init := (same last).mpr ⟨by simp, fun ids => missed (congrArg some ids)⟩
    exact other last there rfl
  · intro same g
    rw [← Option.some.inj same]
    constructor
    · intro there
      exact ⟨List.mem_append_left _ there, other g there⟩
    · rintro ⟨there, ids⟩
      rcases List.mem_append.mp there with there | there
      · exact there
      · exact absurd (congrArg LiveField.id (List.mem_singleton.mp there)) ids

section Sorted

variable {shown : List LiveField} (distinct : (shown.map LiveField.id).Nodup)

include distinct in
theorem sorted_insertAfter {f newField : LiveField} (mem : f ∈ shown) (below : ∀ g ∈ shown, g.id < newField.id) :
    sortField s md (sortField s md shown ++ [newField]) = sortField s md (insertAfter f newField shown) := by
  have inserted := insertAfter_perm newField mem
  have appended : (sortField s md shown ++ [newField]).Perm (newField :: shown) :=
    (List.perm_append_singleton _ _).trans ((sortField_perm s md shown).cons newField)
  refine ordered_unique ?_ (sortField_ordered s md (distinct_of_fresh distinct below appended))
    (sortField_ordered s md (distinct_of_fresh distinct below inserted))
  exact (sortField_perm s md _).trans (appended.trans (inserted.symm.trans (sortField_perm s md _).symm))

include distinct in
theorem sorted_update {f f' : LiveField} (mem : f ∈ shown) (same : f'.id = f.id ∧ f'.d = f.d) :
    update f' (sortField s md shown) = sortField s md (update f' shown) := by
  refine List.map_insertionSort _ _ _ _ fun a memA b memB => ?_
  have key : ∀ g ∈ shown, sortKey s md (if g.id = f'.id then f' else g) = sortKey s md g := by
    intro g there
    split
    · next here =>
      rw [List.inj_on_of_nodup_map distinct there mem (here.trans same.1)]
      unfold sortKey
      rw [same.1, same.2]
    · rfl
  rw [compareField_le_zero, compareField_le_zero, key a memA, key b memB]

include distinct in
theorem sorted_dropLast_iff {f : LiveField} (mem : f ∈ shown) :
    (sortField s md shown).dropLast = sortField s md (shown.filter fun g => g.id ≠ f.id) ↔
      ((sortField s md shown).map LiveField.id).getLast? = some f.id := by
  have perm := sortField_perm s md shown
  have ordered := sortField_ordered s md distinct
  have rest : ((shown.filter fun g => g.id ≠ f.id).map LiveField.id).Nodup :=
    distinct.sublist (List.filter_sublist.map LiveField.id)
  rw [← dropLast_filter ((perm.map LiveField.id).nodup_iff.mpr distinct) (perm.mem_iff.mpr mem)]
  have filter : ∀ g, g ∈ sortField s md (shown.filter fun g => g.id ≠ f.id) ↔
      g ∈ sortField s md shown ∧ g.id ≠ f.id := by
    intro g
    rw [(sortField_perm s md _).mem_iff, List.mem_filter, decide_eq_true_eq, perm.mem_iff]
  constructor
  · intro same g
    rw [same, filter]
  · intro same
    refine ordered_unique ?_ (ordered.sublist (List.dropLast_sublist _)) (sortField_ordered s md rest)
    rw [List.perm_ext_iff_of_nodup ((ordered_distinct ordered).sublist (List.dropLast_sublist _))
      (ordered_distinct (sortField_ordered s md rest))]
    intro g
    rw [same, filter]

end Sorted

/-- A click keeps the list right, unless it destroys a field that is not the last one. -/
theorem Effect.keeps_iff {t t' : Session} {o : Option Nat} (tracks : Tracks t) (kept : Kept s md t)
    (effect : Effect s md t o t') :
    Kept s md t' ↔ ∀ id ∈ o, (t.page.fields.map LiveField.id).getLast? = some id := by
  have after := tracks.effect effect
  rw [kept_iff_sorted tracks] at kept
  rw [kept_iff_sorted after]
  cases effect with
  | stopped next later => simpa using kept
  | cloned f newField next mem fresh later =>
    refine iff_of_true ?_ (by simp)
    show sortField s md (t.page.fields ++ [newField]) = sortField s md (insertAfter f newField t.page.shown)
    rw [kept]
    exact sorted_insertAfter tracks.distinct mem fun g there => fresh ▸ tracks.shown_used there
  | emptied f f' mem same =>
    refine iff_of_true ?_ (by simp)
    show update f' t.page.fields = sortField s md (update f' t.page.shown)
    rw [kept]
    exact sorted_update tracks.distinct mem same
  | destroyed f mem =>
    have only : (∀ id ∈ some f.id, (t.page.fields.map LiveField.id).getLast? = some id) ↔
        (t.page.fields.map LiveField.id).getLast? = some f.id := by simp
    rw [only]
    show t.page.fields.dropLast = sortField s md (t.page.shown.filter fun g => g.id ≠ f.id) ↔ _
    rw [kept]
    exact sorted_dropLast_iff tracks.distinct mem

/-- **The list is right in every state of a run** exactly if it is in order at the start, and every field on which
`destroy` is invoked is the last one of it. -/
theorem kept_iff (m : Message) (presses : List Press) :
    (∀ t, Reached (Session.press s md) m.start presses t → Kept s md t) ↔
      m.fields.Pairwise (fun a b => compareField s md a b = -1) ∧
        ∀ t p, Comes (Session.press s md) m.start presses t p → ∀ id ∈ destroyedBy t.page p,
          (t.page.fields.map LiveField.id).getLast? = some id := by
  have first : Kept s md m.start ↔ m.fields.Pairwise fun a b => compareField s md a b = -1 := by
    rw [kept_iff_sorted (Tracks.start m)]
    constructor
    · intro whole
      rw [show m.fields = sortField s md m.fields from whole]
      exact sortField_ordered s md m.distinct
    · intro ordered
      exact ordered_unique (sortField_perm s md _).symm ordered (sortField_ordered s md m.distinct)
  rw [reached_iff Tracks (Kept s md) (fun t p => ∀ id ∈ destroyedBy t.page p,
    (t.page.fields.map LiveField.id).getLast? = some id) (Tracks.start m)
    (fun t p t' tracks pass => tracks.effect (press_effect pass))
    (fun t p t' tracks kept pass => (press_effect pass).keeps_iff tracks kept), first]
  refine and_congr_right fun _ => forall₂_congr fun t p =>
    ⟨fun each comes id destroys => ?_, fun each t' comes _ => each comes⟩
  obtain ⟨t', pass⟩ : ∃ t', t.press s md p = some t' := by
    cases p with
    | plus id => cases destroys
    | minus id =>
      unfold destroyedBy at destroys
      dsimp only at destroys
      split at destroys
      · next f found =>
        have pressed : press s md t.page (.minus id) = some (minus s t.page f) := by
          rw [press, found]
          rfl
        exact ⟨_, by rw [Session.press, pressed]; rfl⟩
      · cases destroys
  exact each t' comes pass id destroys

/-- A step and its learning rate. -/
def stepFields : List LiveField :=
  (fixedStepProto.fields.zip [⟨['6', '0'], by decide⟩, ⟨['0', '.', '1'], by decide⟩]).zipIdx.map
    fun ((d, v), id) => .mk id d (some v) false none

def fixedStep : Message := ⟨stepFields, 2, by decide +kernel, by decide +kernel⟩

/-- The learning rate is cloned, and then the clone is destroyed, which is the last field: the list is right. -/
theorem fixedStep_kept : (∀ t, Reached (Session.press singaSchema fixedStepProto) fixedStep.start [.plus 1, .minus 2] t →
      Kept singaSchema fixedStepProto t) ∧
    ([.plus 1, .minus 2].foldlM (Session.press singaSchema fixedStepProto) fixedStep.start).map
      (fun t => (t.page.fields.map LiveField.id, t.made, t.destroyed)) = some ([0, 1], [0, 1, 2], [2]) := by
  refine ⟨(kept_iff fixedStep [.plus 1, .minus 2]).mpr ⟨by decide +kernel, ?_⟩, by decide +kernel⟩
  rintro t p ⟨done, ⟨rest, whole⟩, reach⟩ id destroys
  cases done with
  | nil =>
    cases whole
    cases destroys
  | cons first done =>
    obtain rfl : done = [] := by
      have length := congrArg List.length whole
      simp at length
      exact List.length_eq_zero_iff.mp (by omega)
    cases whole
    have last : ([Press.plus 1].foldlM (Session.press singaSchema fixedStepProto) fixedStep.start).map (fun t =>
        (destroyedBy t.page (.minus 2), (t.page.fields.map LiveField.id).getLast?)) = some (some 2, some 2) := by
      decide +kernel
    rw [reach] at last
    obtain ⟨here, there⟩ := Prod.mk.inj (Option.some.inj last)
    rw [here] at destroys
    rw [there]
    exact destroys

/-- The step is cloned, and then the clone is destroyed: the learning rate is gone. -/
theorem fixedStep_not_kept :
    (fixedStep.fields.Pairwise fun a b => compareField singaSchema fixedStepProto a b = -1) ∧
      ∃ t, Reached (Session.press singaSchema fixedStepProto) fixedStep.start [.plus 0, .minus 2] t ∧
        ¬ Kept singaSchema fixedStepProto t := by
  refine ⟨by decide +kernel, ?_⟩
  have run : ([.plus 0, .minus 2].foldlM (Session.press singaSchema fixedStepProto) fixedStep.start).map
      (fun t => (t.page.fields.map LiveField.id, t.made, t.destroyed)) = some ([0, 2], [0, 1, 2], [2]) := by decide +kernel
  obtain ⟨t, reach, state⟩ := Option.map_eq_some_iff.mp run
  refine ⟨t, ⟨_, List.prefix_rfl, reach⟩, fun kept => ?_⟩
  have lost := (kept.exactly 1).mpr
  obtain ⟨fields, rest⟩ := Prod.mk.inj state
  obtain ⟨made, destroyed⟩ := Prod.mk.inj rest
  rw [fields, made, destroyed] at lost
  exact absurd (lost (by decide)) (by decide)

/-! ## New messages -/

theorem mem_newFields {md : MessageDef} {next : Nat} {f : LiveField} (mem : f ∈ newFields md next) :
    next ≤ f.id ∧ f.id < next + md.fields.length ∧ f.d ∈ md.fields := by
  obtain ⟨⟨d, id⟩, there, rfl⟩ := List.mem_map.mp mem
  obtain ⟨low, high, same⟩ := List.mem_zipIdx there
  refine ⟨low, high, ?_⟩
  show d ∈ md.fields
  rw [same]
  exact List.getElem_mem _

theorem newFields_ids (md : MessageDef) (next : Nat) :
    (newFields md next).map LiveField.id = List.range' next md.fields.length := by
  rw [newFields, List.map_map, ← List.zipIdx_map_snd]
  rfl

/-- `new Message(def)`. -/
def Message.new (md : MessageDef) (next : Nat) : Message where
  fields := newFields md next
  nextId := next + md.fields.length
  distinct := by
    rw [newFields_ids]
    exact List.nodup_range'
  used f mem := (mem_newFields mem).2.1

/-- **A new message is in order** exactly if its definition lists the fields by their ids. -/
theorem newMessage_ordered_iff {md : MessageDef} (next : Nat) :
    ((Message.new md next).fields.Pairwise fun a b => compareField s md a b = -1) ↔
      md.fields.Pairwise fun d d' => s.defId md.name d.name ≤ s.defId md.name d'.name := by
  show (newFields md next).Pairwise _ ↔ _
  unfold newFields
  rw [List.pairwise_map]
  generalize md.fields = ds
  induction ds generalizing next with
  | nil => simp
  | cons d ds ih =>
    rw [List.zipIdx_cons, List.pairwise_cons, List.pairwise_cons, ih (next + 1)]
    -- ids grow along the list, so that only the definitions decide
    have first : ∀ p ∈ ds.zipIdx (next + 1), (sortKey s md (.mk next d (d.default.filter fun v => v.chars ≠ []) false none) <
        sortKey s md (.mk p.2 p.1 (p.1.default.filter fun v => v.chars ≠ []) false none) ↔
          s.defId md.name d.name ≤ s.defId md.name p.1.name) := by
      intro p mem
      have later := List.le_snd_of_mem_zipIdx mem
      unfold sortKey
      rw [Prod.Lex.toLex_lt_toLex]
      dsimp only [LiveField.id, LiveField.d]
      omega
    refine and_congr_left fun _ => ⟨fun before d' mem => ?_, fun le p mem => ?_⟩
    · rw [← List.zipIdx_map_fst (next + 1) ds] at mem
      obtain ⟨p, there, rfl⟩ := List.mem_map.mp mem
      exact (first p there).mp (compareField_eq_neg.mp (before p there))
    · exact compareField_eq_neg.mpr ((first p mem).mpr (le p.1 (List.fst_mem_of_mem_zipIdx mem)))

example : ¬ layerProto.fields.Pairwise fun d d' =>
    singaSchema.defId layerProto.name d.name ≤ singaSchema.defId layerProto.name d'.name := by decide +kernel

end Singa.Web
