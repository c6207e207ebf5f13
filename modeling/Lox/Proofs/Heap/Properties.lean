import Lox.Proofs.Heap.Separation
import Lox.Proofs.Session.SuperDispatch

/-!
# Properties and their history

The properties of an instance are what a history of **edits** has left: a name is set to a value, or
unset. What was written out with an object counts as setting its names in order.

A name is **held** with the value that it was set to last, unless it has been unset since or the
value is `nil`, which counts as none when it is looked up. As `unset` looks a name up first, it does
not take a name that holds `nil`: such a name stays among the names, and its place too. The names
stand in the order in which they came, where a name comes with the first edit since it was last
absent (`Placed`).

One edit keeps the properties what the history says (`Records.edit`), and so does a whole history.
From there follows what a program sees of an instance (`properties_follow_history`).
-/

namespace Lox

/-- The value, if it counts as one when it is looked up. -/
def Value.found? : Value → Option Value
  | .nil => none
  | v => some v

/-- Only `nil` counts as none. -/
theorem Value.found?_eq_none (v : Value) : v.found? = none ↔ v = .nil := by
  cases v <;> simp [found?]

/-- An edit of the properties of an instance. -/
inductive Edit
  | set (name : Text) (value : Value)
  | unset (name : Text)

namespace Edit

/-- The name that is edited. -/
def name : Edit → Text
  | set name _ | unset name => name

/-- The value that a name is set to. -/
def valueOf? (name : Text) : Edit → Option Value
  | set other value => if other = name then some value else none
  | unset _ => none

/-! ## Histories -/

/-- The last edit of a name. -/
def last? (edits : List Edit) (name : Text) : Option Edit :=
  edits.reverse.find? fun e => e.name == name

/-- The value that a name was set to last, whether it has been unset since or not. -/
def lastSet? (edits : List Edit) (name : Text) : Option Value :=
  edits.reverse.findSome? (valueOf? name)

/-- The value of a name that was set last, if it counts as one. -/
def held? (edits : List Edit) (name : Text) : Option Value :=
  ((last? edits name).bind (valueOf? name)).bind Value.found?

/-- A name is among the names when it is held, and also when it was last set to `nil`. -/
def Present (edits : List Edit) (name : Text) : Prop :=
  (held? edits name).isSome ∨ lastSet? edits name = some .nil

/-- The first edit since a name was last absent. -/
structure Placed (edits : List Edit) (name : Text) (i : Nat) : Prop where
  lt : i < edits.length
  absent : ¬ Present (edits.take i) name
  since : ∀ m, i < m → m ≤ edits.length → Present (edits.take m) name

variable {edits : List Edit} {e : Edit} {k : Text} {v : Value} {i : Nat}

/-- The last edit of a name is the newest one, if it is of that name. -/
theorem last?_append (edits : List Edit) (e : Edit) (k : Text) :
    last? (edits ++ [e]) k = if e.name = k then some e else last? edits k := by
  simp only [last?, List.reverse_append, List.reverse_singleton, List.singleton_append,
    List.find?_cons]
  by_cases hk : e.name = k
  · simp [hk]
  · rw [beq_eq_false_iff_ne.mpr hk, if_neg hk]

/-- The value that was set last is that of the newest edit, if that sets one. -/
theorem lastSet?_append (edits : List Edit) (e : Edit) (k : Text) :
    lastSet? (edits ++ [e]) k = (e.valueOf? k).or (lastSet? edits k) := by
  simp only [lastSet?, List.reverse_append, List.reverse_singleton, List.singleton_append,
    List.findSome?_cons]
  cases e.valueOf? k <;> rfl

/-- The value that is stored under a name, `nil` included. -/
def stored? (edits : List Edit) (name : Text) : Option Value :=
  (lastSet? edits name).filter fun v =>
    v.found?.isNone || ((last? edits name).bind (valueOf? name)).isSome

/-- A name that is set is stored. -/
theorem stored?_set (edits : List Edit) (k : Text) (v : Value) (other : Text) :
    stored? (edits ++ [.set k v]) other = if other = k then some v else stored? edits other := by
  by_cases hk : other = k
  · subst hk
    simp [stored?, lastSet?_append, last?_append, name, valueOf?]
  · simp [stored?, lastSet?_append, last?_append, name, valueOf?, hk, Ne.symm hk]

/-- A value that is found is taken. -/
theorem stored?_unset (edits : List Edit) (k other : Text) :
    stored? (edits ++ [.unset k]) other =
      if other = k ∧ ((stored? edits k).bind Value.found?).isSome then none
        else stored? edits other := by
  by_cases hk : other = k
  · subst hk
    simp only [stored?, lastSet?_append, last?_append, name, valueOf?, if_true, Option.none_or,
      Option.bind_some, true_and]
    rcases lastSet? edits other with _ | v
    · rfl
    · cases hv : v.found? <;> simp [Option.filter, hv]
  · simp [stored?, lastSet?_append, last?_append, name, valueOf?, hk, Ne.symm hk]

/-- A name that is set is held, unless to `nil`. -/
theorem held?_set (edits : List Edit) (k : Text) (v : Value) (other : Text) :
    held? (edits ++ [.set k v]) other = if other = k then v.found? else held? edits other := by
  by_cases hk : other = k
  · subst hk
    simp [held?, last?_append, name, valueOf?]
  · simp [held?, last?_append, name, hk, Ne.symm hk]

/-- A name that is unset is not held. -/
theorem held?_unset (edits : List Edit) (k other : Text) :
    held? (edits ++ [.unset k]) other = if other = k then none else held? edits other := by
  by_cases hk : other = k
  · subst hk
    simp [held?, last?_append, name, valueOf?]
  · simp [held?, last?_append, name, hk, Ne.symm hk]

/-- What is held is what is stored, but for `nil`. -/
theorem held?_eq (edits : List Edit) (k : Text) :
    held? edits k = (stored? edits k).bind Value.found? := by
  induction edits using List.reverseRecOn with
  | nil => rfl
  | append_singleton edits e ih =>
    cases e with
    | set name v =>
      rw [held?_set, stored?_set, ih]
      split <;> rfl
    | unset name =>
      rw [held?_unset, stored?_unset, ih]
      by_cases hk : k = name
      · subst hk
        cases hfound : (stored? edits k).bind Value.found? <;> simp [hfound]
      · simp [hk]

/-- What is stored was set last. -/
theorem stored?_eq_some (hstored : stored? edits k = some v) : lastSet? edits k = some v :=
  (Option.filter_eq_some_iff.mp hstored).1

/-- A name is present as long as something is stored under it. -/
theorem present_iff : Present edits k ↔ (stored? edits k).isSome := by
  constructor
  · rintro (hheld | hnil)
    · rw [held?_eq] at hheld
      exact Option.isSome_of_isSome_bind hheld
    · simp [stored?, hnil, Value.found?]
  · intro hstored
    obtain ⟨v, hv⟩ := Option.isSome_iff_exists.mp hstored
    cases hfound : v.found? with
    | none => exact .inr (v.found?_eq_none.mp hfound ▸ stored?_eq_some hv)
    | some _ => exact .inl (by rw [held?_eq, hv, Option.bind_some, hfound]; rfl)

/-! ## Places -/

/-- A name that stays keeps its place. -/
theorem Placed.append (hplaced : Placed edits k i) (hk : Present (edits ++ [e]) k) :
    Placed (edits ++ [e]) k i := by
  have hlt := hplaced.lt
  refine ⟨by simp only [List.length_append]; omega, ?_, fun m hm hle => ?_⟩
  · rw [List.take_append_of_le_length hlt.le]
    exact hplaced.absent
  · rcases Nat.lt_or_ge edits.length m with hlast | hbefore
    · rwa [List.take_of_length_le (by simpa using hlast)]
    · rw [List.take_append_of_le_length hbefore]
      exact hplaced.since m hm hbefore

/-- A name that comes gets its place from the edit that brings it. -/
theorem placed_length (hbefore : ¬ Present edits k) (hk : Present (edits ++ [e]) k) :
    Placed (edits ++ [e]) k edits.length := by
  refine ⟨by simp, by rwa [List.take_left'  rfl], fun m hm _ => ?_⟩
  rwa [List.take_of_length_le (by simpa using hm)]

/-- One name has come before another. -/
def Before (edits : List Edit) (a b : Text) : Prop :=
  ∃ i j, Placed edits a i ∧ Placed edits b j ∧ i < j

/-- An edit keeps the order of names that stay. -/
theorem Before.append {a b : Text} (hbefore : Before edits a b) (ha : Present (edits ++ [e]) a)
    (hb : Present (edits ++ [e]) b) : Before (edits ++ [e]) a b := by
  obtain ⟨i, j, hi, hj, hlt⟩ := hbefore
  exact ⟨i, j, hi.append ha, hj.append hb, hlt⟩

end Edit

/-! ## Entries -/

namespace Entries

variable {fields fields' : Entries Value} {name : Text}

/-- The properties after an edit. -/
def edit (fields : Entries Value) : Edit → Entries Value
  | .set name v => fields.put name v
  | .unset name =>
    if ((fields.get? name).bind Value.found?).isSome then fields.remove name else fields

/-- The names are those that have a value. -/
theorem mem_names_iff : name ∈ fields.names ↔ (fields.get? name).isSome := by
  constructor
  · intro hmem
    obtain ⟨⟨key, v⟩, hentry, rfl⟩ := List.mem_map.mp hmem
    obtain ⟨found, hfound⟩ := get?_ne_none_of_mem hentry
    rw [hfound]
    rfl
  · intro hsome
    obtain ⟨v, hv⟩ := Option.isSome_iff_exists.mp hsome
    exact List.mem_map_of_mem (mem_of_get? hv)

theorem names_cons (key : Text) (old : Value) (rest : Entries Value) :
    names ((key, old) :: rest) = key :: names rest :=
  rfl

/-- A new name comes last. -/
theorem names_put (fields : Entries Value) (name : Text) (v : Value) :
    (fields.put name v).names = if name ∈ fields.names then fields.names
      else fields.names ++ [name] := by
  induction fields with
  | nil => rfl
  | cons field rest ih =>
    obtain ⟨key, old⟩ := field
    rw [put]
    by_cases hkey : name = key
    · simp [hkey, names_cons]
    · rw [if_neg (by simpa using hkey), names_cons, names_cons, ih]
      by_cases hmem : name ∈ names rest <;> simp [hkey, hmem]

/-- A name is taken from its place. -/
theorem names_remove (fields : Entries Value) (name : Text) :
    (fields.remove name).names = fields.names.erase name := by
  induction fields with
  | nil => rfl
  | cons field rest ih =>
    obtain ⟨key, old⟩ := field
    rw [remove]
    by_cases hkey : name = key
    · simp [hkey, names_cons]
    · rw [if_neg (by simpa using hkey), names_cons, names_cons, ih,
        List.erase_cons_tail (by simpa using Ne.symm hkey)]

/-- Nothing is found under a name that was taken, if names stand once. -/
theorem get?_remove (hnodup : fields.names.Nodup) (name other : Text) :
    (fields.remove name).get? other = if other = name then none else fields.get? other := by
  induction fields with
  | nil => simp [remove, get?]
  | cons field rest ih =>
    obtain ⟨key, old⟩ := field
    obtain ⟨hkey, hrest⟩ := List.nodup_cons.mp hnodup
    rw [remove, get?_cons]
    by_cases hname : name = key
    · subst hname
      rw [if_pos (beq_self_eq_true name)]
      split
      · next heq => rw [heq, ← Option.not_isSome_iff_eq_none, ← mem_names_iff]; exact hkey
      · rfl
    · rw [if_neg (by simpa using hname), get?_cons, ih hrest]
      by_cases hother : other = key
      · simp [hother, Ne.symm hname]
      · simp [hother]

/-- Entries are their names with the values found there. -/
theorem eq_map_names (hnodup : fields.names.Nodup) :
    fields = fields.names.map fun k => (k, (fields.get? k).getD .nil) := by
  induction fields with
  | nil => rfl
  | cons field rest ih =>
    obtain ⟨key, v⟩ := field
    obtain ⟨hkey, hrest⟩ := List.nodup_cons.mp hnodup
    rw [names_cons, List.map_cons, get?_cons, if_pos rfl, Option.getD_some]
    refine congrArg _ ((ih hrest).trans (List.map_congr_left fun k hk => ?_))
    rw [get?_cons, if_neg]
    rintro rfl
    exact hkey hk

/-- Properties are what a history has left. -/
structure Records (fields : Entries Value) (edits : List Edit) : Prop where
  nodup : fields.names.Nodup
  stored : ∀ k, fields.get? k = Edit.stored? edits k
  placed : ∀ k ∈ fields.names, ∃ i, Edit.Placed edits k i
  ordered : fields.names.Pairwise (Edit.Before edits)

namespace Records

variable {edits : List Edit} {e : Edit}

/-- The names are those that are present in the history. -/
theorem mem_names (hr : Records fields edits) : name ∈ fields.names ↔ Edit.Present edits name := by
  rw [mem_names_iff, hr.stored, Edit.present_iff]

theorem present (hstored : ∀ k, fields.get? k = Edit.stored? edits k) (hmem : name ∈ fields.names) :
    Edit.Present edits name := by
  rwa [Edit.present_iff, ← hstored, ← mem_names_iff]

/-- An edit that brings no name. -/
theorem sublist (hr : Records fields edits) (hsub : fields'.names.Sublist fields.names)
    (hstored : ∀ k, fields'.get? k = Edit.stored? (edits ++ [e]) k) :
    Records fields' (edits ++ [e]) := by
  refine ⟨hr.nodup.sublist hsub, hstored, fun k hk => ?_, ?_⟩
  · obtain ⟨i, hi⟩ := hr.placed k (hsub.subset hk)
    exact ⟨i, hi.append (present hstored hk)⟩
  · exact (hr.ordered.sublist hsub).imp_of_mem fun ha hb hbefore =>
      hbefore.append (present hstored ha) (present hstored hb)

/-- An edit that brings a name, which comes after all others. -/
theorem append (hr : Records fields edits) (hnew : name ∉ fields.names)
    (hnames : fields'.names = fields.names ++ [name])
    (hstored : ∀ k, fields'.get? k = Edit.stored? (edits ++ [e]) k) :
    Records fields' (edits ++ [e]) := by
  have hold : ∀ k ∈ fields.names, Edit.Present (edits ++ [e]) k := fun k hk =>
    present hstored (hnames ▸ List.mem_append_left _ hk)
  have hplaced : ∀ k ∈ fields.names, ∃ i, Edit.Placed (edits ++ [e]) k i ∧ i < edits.length := by
    intro k hk
    obtain ⟨i, hi⟩ := hr.placed k hk
    exact ⟨i, hi.append (hold k hk), hi.lt⟩
  have hlast : Edit.Placed (edits ++ [e]) name edits.length :=
    Edit.placed_length (mt hr.mem_names.mpr hnew)
      (present hstored (hnames ▸ List.mem_append_right _ List.mem_cons_self))
  refine ⟨?_, hstored, fun k hk => ?_, ?_⟩
  · rw [hnames]
    exact List.nodup_append.mpr ⟨hr.nodup, List.nodup_singleton name, fun a ha b hb heq =>
      hnew (List.mem_singleton.mp hb ▸ heq ▸ ha)⟩
  · rw [hnames, List.mem_append, List.mem_singleton] at hk
    rcases hk with hk | rfl
    · obtain ⟨i, hi, -⟩ := hplaced k hk
      exact ⟨i, hi⟩
    · exact ⟨edits.length, hlast⟩
  · rw [hnames]
    refine List.pairwise_append.mpr ⟨?_, List.pairwise_singleton _ _, fun a ha b hb => ?_⟩
    · exact hr.ordered.imp_of_mem fun ha hb hbefore => hbefore.append (hold _ ha) (hold _ hb)
    · obtain ⟨i, hi, hlt⟩ := hplaced a ha
      exact ⟨i, edits.length, hi, List.mem_singleton.mp hb ▸ hlast, hlt⟩

/-- What one edit does. -/
theorem edit (hr : Records fields edits) (e : Edit) : Records (fields.edit e) (edits ++ [e]) := by
  cases e with
  | set name v =>
    have hstored : ∀ k, (fields.put name v).get? k = Edit.stored? (edits ++ [.set name v]) k :=
      fun k => by
      rw [get?_put, Edit.stored?_set, hr.stored]
    by_cases hmem : name ∈ fields.names
    · exact hr.sublist (by rw [Entries.edit, names_put, if_pos hmem]) hstored
    · exact hr.append hmem (by rw [Entries.edit, names_put, if_neg hmem]) hstored
  | unset name =>
    have hstored : ∀ k, Edit.stored? (edits ++ [.unset name]) k =
        if k = name ∧ ((fields.get? name).bind Value.found?).isSome then none else fields.get? k :=
          fun k => by
      rw [Edit.stored?_unset, hr.stored, hr.stored]
    rw [Entries.edit]
    split
    · next hfound =>
      refine hr.sublist (names_remove fields name ▸ List.erase_sublist) fun k => ?_
      simp [hstored, hfound, get?_remove hr.nodup]
    · next hfound =>
      exact hr.sublist (List.Sublist.refl _) fun k => by simp [hstored, hfound]

/-- Each name has the value that it was set to last. -/
theorem values (hr : Records fields edits) :
    fields = fields.names.map fun k => (k, (Edit.lastSet? edits k).getD .nil) := by
  refine (eq_map_names hr.nodup).trans (List.map_congr_left fun k hk => ?_)
  obtain ⟨v, hv⟩ := Option.isSome_iff_exists.mp (mem_names_iff.mp hk)
  rw [hv, Edit.stored?_eq_some (hr.stored k ▸ hv)]

/-- What a history leaves. -/
theorem foldl (edits : List Edit) : Records (edits.foldl Entries.edit []) edits := by
  induction edits using List.reverseRecOn with
  | nil => exact ⟨List.nodup_nil, fun _ => rfl, nofun, List.Pairwise.nil⟩
  | append_singleton edits e ih =>
    rw [List.foldl_append]
    exact ih.edit e

end Records

/-- The properties of an object that is written out. -/
def ofLiteral (literal : List (Text × Value)) : Entries Value :=
  literal.foldl (fun fields f => fields.put f.1 f.2) []

/-- An object that is written out records its fields in order. -/
theorem records_ofLiteral (literal : List (Text × Value)) (edits : List Edit) :
    Records (edits.foldl Entries.edit (ofLiteral literal))
      ((literal.map fun f => Edit.set f.1 f.2) ++ edits) := by
  have hliteral : ofLiteral literal =
      (literal.map fun f => Edit.set f.1 f.2).foldl Entries.edit [] := by
    rw [ofLiteral, List.foldl_map]
    rfl
  rw [hliteral, ← List.foldl_append]
  exact .foldl _

end Entries

/-! ## Instances -/

namespace Heap

variable {h : Heap} {id : InstanceId} {edits : List Edit}

/-- The heap after an edit of an instance. -/
def edit (h : Heap) (id : InstanceId) : Edit → Heap
  | .set name v => h.setField id name v
  | .unset name => (Builtin.unsetField h (.object id) (.string name)).2

/-- What reading a property of an instance gives, and the heap after it. -/
def read? (h : Heap) (id : InstanceId) (name : Text) : Option (Value × Heap) :=
  (h.property? id name).map (h.take id)

/-- A property is found if its value counts. -/
theorem field?_eq (h : Heap) (id : InstanceId) (name : Text) :
    h.field? id name = ((h.fields id).get? name).bind Value.found? := by
  rw [field?]
  rcases (h.fields id).get? name with _ | v
  · rfl
  · cases v <;> rfl

/-- An edit of an instance edits its properties. -/
theorem fields_edit (hid : id < h.instances.size) (e : Edit) :
    (h.edit id e).fields id = (h.fields id).edit e := by
  cases e with
  | set name v => exact (h.fields_modify id _ id).trans (if_pos ⟨rfl, hid⟩)
  | unset name =>
    simp only [edit, Builtin.unsetField, Entries.edit, ← field?_eq]
    cases h.field? id name with
    | none => rfl
    | some old => exact (h.fields_modify id _ id).trans (if_pos ⟨rfl, hid⟩)

/-- What an edit leaves alone. -/
theorem edit_keeps (h : Heap) (id : InstanceId) (e : Edit) :
    (h.edit id e).instances.size = h.instances.size ∧ (h.edit id e).classes = h.classes ∧
      (h.edit id e).classOf? id = h.classOf? id := by
  cases e with
  | set name v => exact ⟨by simp [edit, setField], rfl, classOf?_modify h id _ id⟩
  | unset name =>
    simp only [edit, Builtin.unsetField]
    cases h.field? id name with
    | none => exact ⟨rfl, rfl, rfl⟩
    | some old => exact ⟨by simp [removeField], rfl, classOf?_modify h id _ id⟩

/-- A history of edits leaves the class of the instance and the classes alone. -/
theorem fields_edits (hid : id < h.instances.size) (edits : List Edit) :
    id < (edits.foldl (edit · id ·) h).instances.size ∧
      (edits.foldl (edit · id ·) h).fields id = edits.foldl Entries.edit (h.fields id) ∧
      (edits.foldl (edit · id ·) h).classes = h.classes ∧
      (edits.foldl (edit · id ·) h).classOf? id = h.classOf? id := by
  induction edits generalizing h with
  | nil => exact ⟨hid, rfl, rfl, rfl⟩
  | cons e rest ih =>
    obtain ⟨hsize, hclasses, hclass⟩ := h.edit_keeps id e
    obtain ⟨hid', hfields, hclasses', hclass'⟩ := ih (h := h.edit id e) (hsize ▸ hid)
    exact ⟨hid', hfields.trans (by rw [fields_edit hid, List.foldl_cons]), hclasses'.trans hclasses,
      hclass'.trans hclass⟩

/-- What can be seen of an instance follows from its class and from the history of its
properties. -/
structure Follows (h : Heap) (id : InstanceId) (ofClass : Option ClassId) (edits : List Edit) :
    Prop where
  /-- A name is there when it is held. -/
  has : ∀ k, Builtin.hasPart h (.object id) (.string k) = .ok (.bool (Edit.held? edits k).isSome)
  /-- Reading a name that is held gives its value. -/
  own : ∀ k v, Edit.held? edits k = some v → h.read? id k = some (v, h)
  /-- Reading another one gives the first method on the way up from the class, in a new scope where
  `this` is the instance. -/
  method : ∀ k c m, Edit.held? edits k = none → c ∈ ofClass → h.FirstDefinition k c m →
    h.read? id k =
      some (.closure ⟨m.function, h.scopes.size⟩,
        (h.fork m.scope [(thisName, ⟨false, .object id⟩)]).2)
  /-- A name that is not held and that no class on the way up defines cannot be read. -/
  missing : ∀ k, Edit.held? edits k = none → (∀ c m, c ∈ ofClass → ¬ h.FirstDefinition k c m) →
    h.read? id k = none
  /-- What `unset` gives. -/
  unset : ∀ k, (Builtin.unsetField h (.object id) (.string k)).1 =
    .ok ((Edit.held? edits k).getD .nil)
  /-- The names are those that are present, each once. -/
  nodup : (h.fields id).names.Nodup
  mem_names : ∀ k, k ∈ (h.fields id).names ↔ Edit.Present edits k
  /-- They stand in the order in which they have come. -/
  ordered : (h.fields id).names.Pairwise (Edit.Before edits)
  /-- Each has the value that it was set to last. -/
  values : h.fields id = (h.fields id).names.map fun k => (k, (Edit.lastSet? edits k).getD .nil)
  /-- Expanding the instance gives the names in this order. -/
  expand : Builtin.parts h (.object id) = .ok ((h.fields id).names.map .string)
  /-- Printing an object without a class shows them in this order. -/
  printed : ofClass = none → (Value.object id).printed h =
    bracketed "\x7b" "\x7d" (((h.fields id).names.take maxPrintedItems).map fun k =>
      k ++ utf8 ": " ++ ((Edit.lastSet? edits k).getD .nil).printedInside h)
        (h.fields id).names.length
  /-- A deep copy has the same class and the same names in this order. -/
  copied : ∀ v' h', h.deepCopy (.object id) = some (v', h') →
    ∃ id', v' = .object id' ∧ h'.classOf? id' = ofClass ∧ (h'.fields id').names =
    (h.fields id).names
  /-- Setting a name again leaves it in its place. -/
  overwritten : ∀ k v, Edit.Present edits k → ((h.edit id (.set k v)).fields id).names =
    (h.fields id).names
  /-- Unsetting it first moves it to the end. -/
  renewed : ∀ k v, (Edit.held? edits k).isSome →
    (((h.edit id (.unset k)).edit id (.set k v)).fields id).names =
    (h.fields id).names.erase k ++ [k]

/-- Where no property is held, the class answers with a method. -/
theorem property?_of_held {k : Text} (hfield : h.field? id k = none) :
    h.property? id k = ((h.classOf? id).bind fun c => h.method? c k).map Property.method := by
  rw [property?, hfield]

/-- The deep copy of an instance keeps its class and its names. -/
theorem names_deepCopy {v' : Value} {h' : Heap} (heq : h.deepCopy (.object id) = some (v', h')) :
    ∃ id', v' = .object id' ∧ h'.classOf? id' = h.classOf? id ∧ (h'.fields id').names =
      (h.fields id).names := by
  cases copied_copyWithin _ _ _ _ _ heq with
  | leaf hleaf => exact absurd (.object id) hleaf
  | @object _ h₁ _ _ elements _ _ hfields hnil =>
    cases hnil
    have hlength : (h.fields id).names.length ≤ elements.length := by
      simpa [Entries.names] using hfields.length.ge
    refine ⟨h₁.instances.size, rfl, classOf?_newInstance h₁ _ _, ?_⟩
    rw [fields_newInstance, if_pos rfl]
    exact List.map_fst_zip hlength

/-- A property is found exactly if it is held. -/
theorem field?_of_records (hr : (h.fields id).Records edits) (k : Text) :
    h.field? id k = Edit.held? edits k := by
  rw [field?_eq, hr.stored, Edit.held?_eq]

/-- An object without a class prints its properties. -/
theorem printed_of_records (hr : (h.fields id).Records edits) (hclass : h.classOf? id = none) :
    (Value.object id).printed h =
      bracketed "\x7b" "\x7d" (((h.fields id).names.take maxPrintedItems).map fun k =>
        k ++ utf8 ": " ++ ((Edit.lastSet? edits k).getD .nil).printedInside h)
        (h.fields id).names.length := by
  have hitems : (h.fields id).take maxPrintedItems = ((h.fields id).names.take maxPrintedItems).map
      fun k => (k, (Edit.lastSet? edits k).getD .nil) := by
    rw [List.map_take, ← hr.values]
  simp only [Value.printed, Value.printedWith, hclass, hitems, List.map_map, Entries.names,
    List.length_map]
  rfl

/-- Unsetting a name that is held and setting it again moves it to the end. -/
theorem names_renewed (hr : (h.fields id).Records edits) (hid : id < h.instances.size) {k : Text}
    (hk : (Edit.held? edits k).isSome) (v : Value) :
    (((h.edit id (.unset k)).edit id (.set k v)).fields id).names =
      (h.fields id).names.erase k ++ [k] := by
  have hfound : (((h.fields id).get? k).bind Value.found?).isSome := by
    rwa [hr.stored, ← Edit.held?_eq]
  have hsize := (h.edit_keeps id (.unset k)).1
  rw [fields_edit (hsize ▸ hid), fields_edit hid, Entries.edit, Entries.edit, if_pos hfound,
    Entries.names_put, Entries.names_remove, if_neg (hr.nodup.not_mem_erase)]

/-- An instance that records a history follows it. -/
theorem follows_of_records (hr : (h.fields id).Records edits) (hid : id < h.instances.size)
    (hancestral : h.Ancestral) : Follows h id (h.classOf? id) edits where
  has k := by
    rw [← field?_of_records hr]
    rfl
  own k v hv := by rw [read?, property?, field?_of_records hr, hv]; rfl
  method k c m hk hc hm := by
    rw [read?, property?_of_held ((field?_of_records hr k).trans hk), Option.mem_def.mp hc,
      Option.bind_some, (method?_eq_some_iff hancestral).mpr hm]
    rfl
  missing k hk hnone := by
    rw [read?, property?_of_held ((field?_of_records hr k).trans hk), Option.map_map,
      Option.map_eq_none_iff, Option.bind_eq_none_iff]
    exact fun c hc => Option.eq_none_iff_forall_ne_some.mpr fun m hm =>
      hnone c m hc ((method?_eq_some_iff hancestral).mp hm)
  unset k := by
    rw [← field?_of_records hr, Builtin.unsetField]
    cases h.field? id k <;> rfl
  nodup := hr.nodup
  mem_names k := hr.mem_names
  ordered := hr.ordered
  values := hr.values
  expand := rfl
  printed := printed_of_records hr
  copied v' h' heq := names_deepCopy heq
  overwritten k v hk := by
    rw [fields_edit hid, Entries.edit, Entries.names_put, if_pos (hr.mem_names.mpr hk)]
  renewed k v hk := names_renewed hr hid hk v

/-- A property that is written out is added to those before it. -/
theorem stepValue_field (limit : Nat) (v : Value) (given : List (Text × Value)) (key : Text)
    (rest : List Field) (next : ValueCont) (scope : ScopeId) (depth : Nat) (h : Heap)
    (console : Console) :
    stepValue limit v (.field (Entries.ofLiteral given) key rest next) scope depth h console =
      runFields (Entries.ofLiteral (given ++ [(key, v)])) rest next scope depth h console := by
  simp only [stepValue, Entries.ofLiteral, List.foldl_append, List.foldl_cons, List.foldl_nil]

/-- The properties of an instance, from what was written out with it and what has been set and unset
since. -/
theorem properties_follow_history (hancestral : h.Ancestral) (ofClass : Option ClassId)
    (literal : List (Text × Value)) (edits : List Edit) :
    Follows (edits.foldl (edit · h.instances.size ·)
      (h.newInstance ofClass (Entries.ofLiteral literal)).2)
      h.instances.size ofClass ((literal.map fun f => Edit.set f.1 f.2) ++ edits) := by
  have hid : h.instances.size <
      (h.newInstance ofClass (Entries.ofLiteral literal)).2.instances.size := by
    simp [newInstance]
  obtain ⟨hid', hfields, hclasses, hclass⟩ := fields_edits hid edits
  rw [fields_newInstance, if_pos rfl] at hfields
  have hfollows :=
    follows_of_records (hfields ▸ Entries.records_ofLiteral literal edits) hid' fun id c hc =>
    hancestral id c (hclasses ▸ hc)
  rwa [hclass, classOf?_newInstance] at hfollows

/-- Two classes, one of which extends the other. -/
def family : Heap := ⟨#[], #[], #[], #[⟨utf8 "A", none, [], none⟩, ⟨utf8 "B", some 0, [], none⟩], 0⟩

theorem ancestral_family : family.Ancestral := by
  intro id c hc superclass hsuperclass
  rcases id with _ | _ | id
  · obtain rfl := Option.some.inj hc
    cases hsuperclass
  · obtain rfl := Option.some.inj hc
    obtain rfl := Option.some.inj hsuperclass
    exact Nat.zero_lt_one
  · simp [family] at hc

/-- An instance of a subclass is edited so that one name goes and one that holds `nil` stays. -/
theorem properties_follow_history_family :
    family.Ancestral ∧
    Follows ([Edit.set (utf8 "a") (.bool true), .set (utf8 "b") .nil, .unset (utf8 "a"),
      .unset (utf8 "b")].foldl
      (edit · 0 ·) (family.newInstance (some 1) []).2) 0 (some 1)
      [.set (utf8 "a") (.bool true), .set (utf8 "b") .nil, .unset (utf8 "a"), .unset (utf8 "b")] :=
  ⟨ancestral_family, properties_follow_history ancestral_family (some 1) [] _⟩

/-- A name that was set last is not found when it was set to `nil`, and `unset` does not take it. -/
theorem nil_property_stays :
    ∃ h : Heap, h = ((Heap.ofBindings []).newInstance none [(utf8 "a", .nil)]).2 ∧
    Builtin.hasPart h (.object 0) (.string (utf8 "a")) = .ok (.bool false) ∧
    ((h.edit 0 (.unset (utf8 "a"))).fields 0).names = [utf8 "a"] :=
  ⟨_, rfl, rfl, rfl⟩

end Heap

end Lox
