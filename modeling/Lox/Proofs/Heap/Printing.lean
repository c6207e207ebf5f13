import Lox.Heap.Printed
import Mathlib.Tactic.Common

/-!
# What is printed of a value

Printing a list or an object that was written out prints its items, and an item may be such a
**container** in turn, or the very container that is printed. What ends the printing is not the
heap: a container that is printed as an item shows none of its own items. So the printing that
follows the values it meets (`print?`) ends within three levels on every heap, those with lists that
contain themselves included, and it is the two levels that `Value.printed` spells out (`print?_eq`).

The text of a container accounts for each of its items: they are shown in order up to the hundredth,
and the others are counted. It follows that the text depends on little: the items themselves and the
sizes of those that are containers. The main theorem is `printed_accounts`.
-/

namespace Lox

/-! ## Containers -/

/-- The brackets of a list, and those of an object. -/
inductive Bracket
  | square
  | curly
  deriving DecidableEq, Repr

namespace Bracket

def opening : Bracket → String
  | square => "["
  | curly => "\x7b"

def closing : Bracket → String
  | square => "]"
  | curly => "\x7d"

/-- Parts between brackets, with commas between them. -/
def wrap (b : Bracket) (parts : List Text) : Text :=
  if parts = [] then utf8 b.opening ++ utf8 " " ++ utf8 b.closing
  else utf8 b.opening ++ utf8 " " ++ Text.join (utf8 ", ") parts ++ utf8 " " ++ utf8 b.closing

end Bracket

/-- A list, or an object that was written out: its brackets, and its items with what stands in front
of each. -/
structure Container where
  bracket : Bracket
  items : List (Text × Value)

/-- What stands for a number of items that are not shown. -/
def hiddenItems (n : Nat) : Text := utf8 "..." ++ Text.ofNat n ++ utf8 " hidden"

/-- The text of a container of which some items are shown. -/
def Container.write (c : Container) (shown : List Text) : Text :=
  c.bracket.wrap (shown ++ if shown.length < c.items.length
    then [hiddenItems (c.items.length - shown.length)] else [])

/-- Where the items up to a limit are shown, the others are counted if there are any. -/
theorem Container.write_take (c : Container) (limit : Nat) (text : Text × Value → Text) :
    c.write ((c.items.take limit).map text) = c.bracket.wrap ((c.items.take limit).map text ++
      if limit < c.items.length then [hiddenItems (c.items.length - limit)] else []) := by
  rw [write, List.length_map, List.length_take]
  by_cases hmany : limit < c.items.length
  · rw [Nat.min_eq_left (Nat.le_of_lt hmany)]
  · rw [if_neg (by omega), if_neg hmany]

namespace Value

/-- The container that a value is. An instance of a class is none. -/
def container? (h : Heap) : Value → Option Container
  | .list id => some ⟨.square, (h.elements id).toList.map fun v => ([], v)⟩
  | .object id =>
    match h.classOf? id with
    | some _ => none
    | none => some ⟨.curly, (h.fields id).map fun f => (f.1 ++ utf8 ": ", f.2)⟩
  | _ => none

/-- The number of items of a value that is a container. -/
def size? (h : Heap) (v : Value) : Option Nat := (v.container? h).map fun c => c.items.length

/-- The name of the class that a value is, or that it is an instance of. -/
def className? (h : Heap) : Value → Option Text
  | .classRef id => (h.classes[id]?).map ClassDef.name
  | .object id => ((h.classOf? id).bind fun c => h.classes[c]?).map ClassDef.name
  | _ => none

/-- Prints a value by printing what it is made of, in turn: the items of a container unless it is
itself an item, and the class of an instance. There is no text if that has not ended within a number
of levels. -/
def print? (h : Heap) : Nat → Bool → Value → Option Text
  | 0, _, _ => none
  | level + 1, nested, v =>
    match v.container? h with
    | some c =>
      let shown := if nested then [] else c.items.take maxPrintedItems
      (shown.mapM fun item => (print? h level true item.2).map (item.1 ++ ·)).map c.write
    | none =>
      match v with
      | .object id =>
        (h.classOf? id).bind fun c =>
          (print? h level true (.classRef c)).map (utf8 "instance of " ++ ·)
      | v => some (printedPlain h v)

/-! ## The two levels -/

variable {h : Heap} {v : Value} {c : Container}

theorem bracketed_eq (b : Bracket) {items : List Text} {total : Nat} (h : items.length ≤ total) :
    bracketed b.opening b.closing items total =
      b.wrap (items ++ if items.length < total then [hiddenItems (total - items.length)]
        else []) := by
  unfold bracketed Bracket.wrap
  by_cases hall : total = items.length
  · subst hall
    cases items with
    | nil => rfl
    | cons t rest => simp
  · have hless : items.length < total := by omega
    have hpos : total ≠ 0 := by omega
    simp [hall, hless, hpos, bracketed.hidden, hiddenItems]

/-- A container is printed as its first items, as many as asked for, and the number of the
others. -/
theorem printedWith_of_container (hc : v.container? h = some c) (limit : Nat)
    (item : Value → Text) :
    printedWith h limit item v = c.write ((c.items.take limit).map fun i => i.1 ++ item i.2) := by
  have hwrite : ∀ (b : Bracket) (items : List (Text × Value)),
      bracketed b.opening b.closing ((items.take limit).map fun i => i.1 ++ item i.2) items.length =
        Container.write ⟨b, items⟩ ((items.take limit).map fun i => i.1 ++ item i.2) := by
    intro b items
    exact bracketed_eq b (by simp only [List.length_map, List.length_take]; omega)
  cases v with
  | list id =>
    obtain rfl := Option.some.inj hc
    rw [← hwrite]
    simp [printedWith, ← List.map_take, Function.comp_def, Bracket.opening, Bracket.closing]
  | object id =>
    cases hclass : h.classOf? id with
    | some owner => simp [container?, hclass] at hc
    | none =>
      simp only [container?, hclass] at hc
      obtain rfl := Option.some.inj hc
      rw [← hwrite]
      simp [printedWith, hclass, ← List.map_take, Function.comp_def, Bracket.opening,
        Bracket.closing]
  | _ => cases hc

/-- What is no container is printed as it is, wherever it stands. -/
theorem printedWith_of_plain (hc : v.container? h = none) (limit : Nat) (item : Value → Text) :
    printedWith h limit item v = printedPlain h v := by
  cases v with
  | list id => cases hc
  | object id =>
    cases hclass : h.classOf? id with
    | some owner => simp [printedWith, hclass]
    | none => simp [container?, hclass] at hc
  | _ => rfl

theorem printed_of_container (hc : v.container? h = some c) :
    v.printed h =
      c.write ((c.items.take maxPrintedItems).map fun i => i.1 ++ printedInside h i.2) :=
  printedWith_of_container hc _ _

/-- A container inside another shows its size and nothing else. -/
theorem printedInside_of_container (hc : v.container? h = some c) :
    v.printedInside h = c.write [] :=
  printedWith_of_container hc 0 _

theorem printedInside_of_plain (hc : v.container? h = none) : v.printedInside h = v.printed h :=
  (printedWith_of_plain hc _ _).trans (printedWith_of_plain hc _ _).symm

/-! ## Printing ends -/

/-- What is no container is printed within two levels: an instance, and its class. -/
theorem print?_of_plain (hc : v.container? h = none) (level : Nat) (nested : Bool) :
    print? h (level + 2) nested v = some (printedPlain h v) := by
  cases v with
  | list id => cases hc
  | object id =>
    cases hclass : h.classOf? id with
    | none => simp [container?, hclass] at hc
    | some owner => simp [print?, container?, printedPlain, hclass]
  | _ => rfl

/-- An item is printed within two levels. -/
theorem print?_inside (h : Heap) (v : Value) (level : Nat) :
    print? h (level + 2) true v = some (v.printedInside h) := by
  cases hc : v.container? h with
  | some c =>
    rw [printedInside_of_container hc]
    unfold print?
    rw [hc]
    rfl
  | none => rw [print?_of_plain hc, printedInside_of_plain hc, printed, printedWith_of_plain hc]

/-- Printing ends within three levels, whatever the heap holds. -/
theorem print?_eq (h : Heap) (v : Value) (level : Nat) :
    print? h (level + 3) false v = some (v.printed h) := by
  cases hc : v.container? h with
  | some c =>
    rw [printed_of_container hc]
    unfold print?
    rw [hc]
    simp only [Bool.false_eq_true, if_false, print?_inside, Option.map_some]
    exact congrArg (Option.map c.write) List.mapM_pure
  | none => rw [print?_of_plain hc, printed, printedWith_of_plain hc]

/-! ## What the text depends on -/

/-- What is no container is printed alike in heaps that agree on the name of its class. -/
theorem printedPlain_congr {h' : Heap} (hc : v.container? h = none) (hc' : v.container? h' = none)
    (hname : v.className? h = v.className? h') : printedPlain h v = printedPlain h' v := by
  cases v with
  | classRef id =>
    simpa [printedPlain, printedPlain.className, className?] using congrArg (Option.getD · []) hname
  | object id =>
    cases hclass : h.classOf? id with
    | none => simp [container?, hclass] at hc
    | some owner =>
      cases hclass' : h'.classOf? id with
      | none => simp [container?, hclass'] at hc'
      | some owner' =>
        simp only [className?, hclass, hclass', Option.bind_some] at hname
        simp [printedPlain, printedPlain.className, hclass, hclass', hname]
  | _ => rfl

/-- The brackets of a container are told by the value. -/
theorem bracket_eq {h' : Heap} {c' : Container} (hc : v.container? h = some c)
    (hc' : v.container? h' = some c') : c.bracket = c'.bracket := by
  cases v with
  | list id =>
    obtain rfl := Option.some.inj hc
    obtain rfl := Option.some.inj hc'
    rfl
  | object id =>
    cases hclass : h.classOf? id with
    | some owner => simp [container?, hclass] at hc
    | none =>
      cases hclass' : h'.classOf? id with
      | some owner => simp [container?, hclass'] at hc'
      | none =>
        simp only [container?, hclass, Option.some.injEq] at hc
        simp only [container?, hclass', Option.some.injEq] at hc'
        rw [← hc, ← hc']
  | _ => cases hc

/-- An item is printed alike in heaps that agree on its size and on the name of its class. -/
theorem printedInside_congr {h' : Heap} (hsize : v.size? h' = v.size? h)
    (hname : v.className? h' = v.className? h) : v.printedInside h' = v.printedInside h := by
  unfold size? at hsize
  cases hc : v.container? h with
  | some c =>
    rw [hc] at hsize
    obtain ⟨c', hc', hlength⟩ := Option.map_eq_some_iff.mp hsize
    rw [printedInside_of_container hc, printedInside_of_container hc', Container.write,
      Container.write, hlength, bracket_eq hc' hc]
  | none =>
    rw [hc] at hsize
    have hc' : v.container? h' = none := Option.map_eq_none_iff.mp hsize
    rw [printedInside_of_plain hc, printedInside_of_plain hc', printed, printed,
      printedWith_of_plain hc, printedWith_of_plain hc', printedPlain_congr hc' hc hname]

/-- **Printing ends on every heap and accounts for every item.** Within three levels there is a
text, of whatever value.

The text of a container shows its items in order up to the hundredth, and counts the others if there
are any. An item that is a container is empty brackets, or its size between brackets; another is
what it is by itself. So if a container with the same items is in another heap, and the heaps agree
on the size of each item that is a container, and on the name of the class of each that is a class
or an instance of one, then the texts are the same. -/
theorem printed_accounts (h : Heap) (v : Value) :
    (∀ levels, 3 ≤ levels → print? h levels false v = some (v.printed h)) ∧
    ∀ c, v.container? h = some c →
      v.printed h = c.bracket.wrap
        ((c.items.take 100).map (fun item => item.1 ++ item.2.printedInside h) ++
        if 100 < c.items.length then [hiddenItems (c.items.length - 100)] else []) ∧
      (∀ item ∈ c.items, ∀ inner, item.2.container? h = some inner →
        item.2.printedInside h =
          inner.bracket.wrap (if inner.items = [] then [] else [hiddenItems inner.items.length])) ∧
      (∀ item ∈ c.items, item.2.container? h = none → item.2.printedInside h = item.2.printed h) ∧
      ∀ (h' : Heap) (v' : Value), v'.container? h' = some c →
        (∀ item ∈ c.items, item.2.size? h' = item.2.size? h ∧ item.2.className? h' =
          item.2.className? h) →
        v'.printed h' = v.printed h := by
  refine ⟨fun levels hlevels => ?_,
    fun c hc => ⟨?_, fun item _ inner hinner => ?_,
      fun item _ => printedInside_of_plain, fun h' v' hc' hagree => ?_⟩⟩
  · obtain ⟨level, rfl⟩ := Nat.exists_eq_add_of_le' hlevels
    exact print?_eq h v level
  · exact (printed_of_container hc).trans (c.write_take maxPrintedItems _)
  · rw [printedInside_of_container hinner, Container.write]
    by_cases hempty : inner.items = []
    · simp [hempty]
    · simp [hempty, List.length_pos_iff]
  · rw [printed_of_container hc, printed_of_container hc']
    congr 1
    refine List.map_congr_left fun item hitem => ?_
    obtain ⟨hsize, hname⟩ := hagree item (List.mem_of_mem_take hitem)
    rw [printedInside_congr hsize hname]

/-- A list of a hundred and two elements that starts with itself, an empty list and an object that
holds the list. -/
theorem printed_accounts_cyclic :
    let elements : List Value := [.list 0, .list 1, .object 0] ++ List.replicate 99 .nil
    let h : Heap := ⟨#[], #[elements.toArray, #[]], #[⟨none, [(utf8 "a", .list 0)]⟩], #[], 0⟩
    print? h 3 false (.list 0) = some ((Value.list 0).printed h) ∧
      (Value.list 0).printed h = Bracket.square.wrap
        ([utf8 "[ ...102 hidden ]", utf8 "[ ]", utf8 "\x7b ...1 hidden \x7d"] ++
          List.replicate 97 (utf8 "nil") ++
          [utf8 "...2 hidden"]) := by
  intro elements h
  obtain ⟨hends, hitems⟩ := printed_accounts h (.list 0)
  refine ⟨hends 3 (Nat.le_refl 3), (hitems ⟨.square, elements.map fun v => ([], v)⟩ rfl).1.trans ?_⟩
  decide +kernel

end Value

end Lox
