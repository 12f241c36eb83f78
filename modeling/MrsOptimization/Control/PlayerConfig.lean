import Mathlib.Data.String.Basic
import MrsOptimization.Library.SelfDelimiting

/-!
# The Player configuration text

A configuration prints its enabled drivers, a driver its items, an item its name
and its values, by concatenation: no printer escapes anything. The text is
therefore read back only when names and values leave alone the symbols that
delimit them, which is what `Plain` says, and two configurations of plain items
with the same text have the same enabled items.
-/

namespace MrsOptimization

/-- The symbol around a value. -/
def quote : Char := Char.ofNat 34

@[ext]
structure PlayerDriverItem where
  name : String
  values : List String
  isList : Bool
deriving DecidableEq, Repr

namespace PlayerDriverItem

/-- The constructor with one value. -/
def ofValue (name value : String) : PlayerDriverItem :=
  ⟨name, [value], false⟩

/-- The constructor with one value and the list flag. -/
def ofFlag (name value : String) (isList : Bool) : PlayerDriverItem :=
  ⟨name, [value], isList⟩

/-- The constructor with any number of values. -/
def ofValues (name : String) (values : List String) : PlayerDriverItem :=
  ⟨name, values, true⟩

/-- The text of an item: `values.get(0)` fails where there is no value. -/
def toString (item : PlayerDriverItem) : Option String :=
  if item.isList then
    some (item.name ++ " [" ++
      item.values.foldl (fun res v => res ++ (" \"" ++ v ++ "\" ")) "" ++ "]")
  else
    item.values[0]?.map fun value => item.name ++ " \"" ++ value ++ "\""

end PlayerDriverItem

structure PlayerDriver where
  enabled : Bool
  items : List PlayerDriverItem
deriving DecidableEq, Repr

namespace PlayerDriver

/-- The constructor: an enabled driver whose first item is its name. -/
def ofName (name : String) : PlayerDriver :=
  ⟨true, [.ofValue "name" name]⟩

/-- The text of a driver, which fails where one of its items has no text. -/
def toString (driver : PlayerDriver) : Option String := do
  let res ← driver.items.foldlM
    (fun res item => item.toString.map fun text => res ++ ("  " ++ text ++ "\n")) "driver (\n"
  return res ++ ")\n"

end PlayerDriver

structure PlayerConfigImpl where
  drivers : List PlayerDriver
deriving DecidableEq, Repr

namespace PlayerConfigImpl

def getConfigText (config : PlayerConfigImpl) : Option String :=
  config.drivers.foldlM
    (fun res driver =>
      if driver.enabled then driver.toString.map fun text => res ++ (text ++ "\n") else some res)
    ""

/-- The configuration of the robot the repository ships. -/
def getDefaultCorobotConfig : PlayerConfigImpl where
  drivers := [
    { PlayerDriver.ofName "stage" with
      items := (PlayerDriver.ofName "stage").items ++
        [.ofValue "plugin" "stageplugin", .ofValue "worldfile" "mrs_grass.world",
          .ofValue "usegui" "1", .ofFlag "provides" "6650:simulation:0" true] },
    { PlayerDriver.ofName "stage" with
      items := (PlayerDriver.ofName "stage").items ++
        [.ofValue "model" "rob1",
          .ofValues "provides" ["6665:position2d:0", "6665:ranger:0", "6665:fiducial:0",
            "6665:blobfinder:0"]] }]

/-- What a configuration tells Player: the items of its enabled drivers. -/
def enabledItems (config : PlayerConfigImpl) : List (List PlayerDriverItem) :=
  (config.drivers.filter (·.enabled)).map (·.items)

end PlayerConfigImpl

section AppendingLoop

variable {α : Type*} {print : α → Option String}

/-- A loop that appends the text of each element appends their texts in order. -/
theorem foldlM_append_eq_some (l : List α) {before after text : String} (init : String)
    (h : l.foldlM (fun res a => (print a).map fun t => res ++ (before ++ t ++ after)) init =
      some text) :
    ∃ texts, List.Forall₂
        (Framed before.toList after.toList fun a t => ∃ s, print a = some s ∧ t = s.toList)
        l texts ∧
      text.toList = init.toList ++ texts.flatten := by
  induction l generalizing init with
  | nil =>
    cases h
    exact ⟨[], List.Forall₂.nil, by simp⟩
  | cons a l ih =>
    rw [List.foldlM_cons] at h
    rcases Option.bind_eq_some_iff.mp h with ⟨_, printed, rest⟩
    rcases Option.map_eq_some_iff.mp printed with ⟨s, hs, rfl⟩
    rcases ih _ rest with ⟨texts, printedRest, joined⟩
    refine ⟨(before.toList ++ s.toList ++ after.toList) :: texts,
      List.Forall₂.cons ⟨s.toList, ⟨s, hs, rfl⟩, rfl⟩ printedRest, ?_⟩
    simp [joined, String.toList_append]

/-- The loop fails where an element has no text, and nowhere else. -/
theorem isSome_foldlM_append_iff (l : List α) (before after init : String) :
    (l.foldlM (fun res a => (print a).map fun t => res ++ (before ++ t ++ after)) init).isSome ↔
      ∀ a ∈ l, (print a).isSome := by
  induction l generalizing init with
  | nil => simp
  | cons a l ih =>
    rw [List.foldlM_cons, List.forall_mem_cons]
    cases print a with
    | none => simp
    | some s => simpa using ih (init ++ (before ++ s ++ after))

theorem toList_foldl_append (f : α → String) (l : List α) (init : String) :
    (l.foldl (fun res a => res ++ f a) init).toList =
      init.toList ++ (l.map fun a => (f a).toList).flatten := by
  induction l generalizing init with
  | nil => simp
  | cons a l ih => simp [ih, String.toList_append]

end AppendingLoop

namespace PlayerDriverItem

theorem isSome_toString_iff (item : PlayerDriverItem) :
    item.toString.isSome ↔ (item.isList = false → item.values ≠ []) := by
  unfold toString
  cases item.isList <;> cases item.values <;> simp

/-- Names and values leave alone the symbols that delimit them, and every value is printed. -/
structure Plain (item : PlayerDriverItem) : Prop where
  quote_name : quote ∉ item.name.toList
  closing_name : ¬ " []\n".toList <:+: item.name.toList
  quote_values : ∀ value ∈ item.values, quote ∉ value.toList
  single : item.isList = false → item.values.length ≤ 1

instance (item : PlayerDriverItem) : Decidable item.Plain :=
  decidable_of_iff
    (quote ∉ item.name.toList ∧ ¬ " []\n".toList <:+: item.name.toList ∧
      (∀ value ∈ item.values, quote ∉ value.toList) ∧
      (item.isList = false → item.values.length ≤ 1))
    ⟨fun ⟨h, h', h'', h'''⟩ => ⟨h, h', h'', h'''⟩, fun h => ⟨h.1, h.2, h.3, h.4⟩⟩

/-- A plain item and its text. -/
def Prints (item : PlayerDriverItem) (text : List Char) : Prop :=
  item.Plain ∧ ∃ s, item.toString = some s ∧ text = s.toList

/-- A value without quotation marks and its text. -/
def PrintsValue : String → List Char → Prop :=
  Framed [' ', quote] [quote, ' '] fun value text => quote ∉ value.toList ∧ text = value.toList

theorem selfDelimiting_value : SelfDelimiting PrintsValue := by
  apply SelfDelimiting.framed
  rintro value value' _ _ ⟨_, ⟨absent, rfl⟩, rfl⟩ ⟨_, ⟨absent', rfl⟩, rfl⟩ rest rest' same
  simp only [List.nil_append, List.append_assoc, List.cons_append] at same
  rcases append_cons_inj_of_first absent absent' same with ⟨values, rests⟩
  exact ⟨String.toList_inj.mp values, by simpa using rests⟩

theorem selfDelimiting_values : SelfDelimiting (ClosedBy [']'] PrintsValue) := by
  apply SelfDelimiting.closed selfDelimiting_value
  rintro value _ ⟨_, _, rfl⟩ rest rest' same
  simp at same

/-- A list item prints its name, an opening bracket and its values. -/
theorem Prints.list {item : PlayerDriverItem} {text : List Char} (h : item.Prints text)
    (isList : item.isList = true) :
    ∃ values, ClosedBy [']'] PrintsValue item.values values ∧
      text = item.name.toList ++ [' ', '['] ++ values := by
  rcases h with ⟨plain, _, printed, rfl⟩
  simp only [toString, isList, if_true, Option.some.injEq] at printed
  subst printed
  refine ⟨_, ⟨item.values.map fun v => [' ', quote] ++ v.toList ++ [quote, ' '], ?_, rfl⟩, ?_⟩
  · rw [List.forall₂_map_right_iff, List.forall₂_same]
    intro value mem
    exact ⟨value.toList, ⟨plain.quote_values value mem, rfl⟩, rfl⟩
  · simp [toList_foldl_append, String.toList_append, quote]

/-- Any other item prints its name and its only value. -/
theorem Prints.single {item : PlayerDriverItem} {text : List Char} (h : item.Prints text)
    (isList : item.isList = false) :
    ∃ value, item.values = [value] ∧
      text = item.name.toList ++ [' '] ++ quote :: (value.toList ++ [quote]) := by
  rcases h with ⟨plain, _, printed, rfl⟩
  simp only [toString, isList, Bool.false_eq_true, if_false, Option.map_eq_some_iff] at printed
  rcases printed with ⟨value, first, rfl⟩
  have short := plain.single isList
  refine ⟨value, ?_, by simp [String.toList_append, quote]⟩
  rcases hvalues : item.values with _ | ⟨head, _ | ⟨next, tail⟩⟩
  · simp [hvalues] at first
  · simpa [hvalues] using first
  · simp [hvalues] at short

/-- The values of a list are closed at once or begin with a quoted value and a blank. -/
theorem values_cases {values : List String} {text : List Char}
    (h : ClosedBy [']'] PrintsValue values text) :
    text = [']'] ∨ ∃ value tail, quote ∉ value ∧
      text = [' '] ++ quote :: (value ++ quote :: ' ' :: tail) := by
  rcases h with ⟨texts, printed, rfl⟩
  cases printed with
  | nil => exact Or.inl rfl
  | cons head _ =>
    rcases head with ⟨_, ⟨absent, rfl⟩, rfl⟩
    exact Or.inr ⟨_, _, absent, by simp; rfl⟩

/-- The closing word of an empty list comes before any quotation mark or inside the name. -/
theorem empty_ne_quoted {name name' gap rest rest' : List Char} (absent : quote ∉ name)
    (closing : ¬ " []\n".toList <:+: name') (gapLine : '\n' ∉ gap) :
    name ++ " []\n".toList ++ rest ≠ name' ++ gap ++ quote :: rest' := by
  intro same
  rcases prefix_of_append_cons (List.not_mem_append absent (by decide)) same with ⟨between, h⟩
  have found : [' ', '[', ']'] ++ ['\n'] <:+: name' ++ gap := ⟨name, between, h.symm⟩
  exact closing (infix_of_infix_append gapLine found)

/-- Two list items on a line have the same name. -/
theorem name_eq_of_lists {name name' values values' rest rest' : List Char}
    {vs vs' : List String} (absent : quote ∉ name) (absent' : quote ∉ name')
    (closing : ¬ " []\n".toList <:+: name) (closing' : ¬ " []\n".toList <:+: name')
    (printed : ClosedBy [']'] PrintsValue vs values)
    (printed' : ClosedBy [']'] PrintsValue vs' values')
    (same : name ++ [' ', '['] ++ values ++ '\n' :: rest =
      name' ++ [' ', '['] ++ values' ++ '\n' :: rest') : name = name' := by
  rcases values_cases printed with rfl | ⟨value, tail, _, rfl⟩ <;>
    rcases values_cases printed' with rfl | ⟨value', tail', _, rfl⟩
  · -- both lists are empty: the closing word ends either name
    have split : name ++ (" []\n".toList ++ rest) = name' ++ (" []\n".toList ++ rest') := by
      simpa using same
    exact (append_word_inj_of_first (by decide) closing closing' split).1
  · have split : name ++ " []\n".toList ++ rest =
        name' ++ [' ', '[', ' '] ++
          quote :: (value' ++ quote :: ' ' :: tail' ++ '\n' :: rest') := by
      simpa using same
    exact absurd split (empty_ne_quoted absent closing' (by decide))
  · have split : name' ++ " []\n".toList ++ rest' =
        name ++ [' ', '[', ' '] ++ quote :: (value ++ quote :: ' ' :: tail ++ '\n' :: rest) := by
      simpa using same.symm
    exact absurd split (empty_ne_quoted absent' closing (by decide))
  · -- both lists have a value: the first quotation mark ends either name
    have split :
        name ++ [' ', '[', ' '] ++ quote :: (value ++ quote :: ' ' :: tail ++ '\n' :: rest) =
          name' ++ [' ', '[', ' '] ++
            quote :: (value' ++ quote :: ' ' :: tail' ++ '\n' :: rest') := by
      simpa using same
    rcases append_cons_inj_of_first (List.not_mem_append absent (by decide))
      (List.not_mem_append absent' (by decide)) split with ⟨names, _⟩
    exact List.append_cancel_right names

/-- After its first value a list goes on with a blank, any other item ends its line. -/
theorem list_ne_single {name name' values value' rest rest' : List Char} {vs : List String}
    (absent : quote ∉ name) (absent' : quote ∉ name') (closing' : ¬ " []\n".toList <:+: name')
    (printed : ClosedBy [']'] PrintsValue vs values) (absentValue' : quote ∉ value') :
    name ++ [' ', '['] ++ values ++ '\n' :: rest ≠
      name' ++ [' '] ++ quote :: (value' ++ [quote]) ++ '\n' :: rest' := by
  intro same
  rcases values_cases printed with rfl | ⟨value, tail, absentValue, rfl⟩
  · have split : name ++ " []\n".toList ++ rest =
        name' ++ [' '] ++ quote :: (value' ++ quote :: '\n' :: rest') := by
      simpa using same
    exact empty_ne_quoted absent closing' (by decide) split
  · have split : name ++ [' ', '[', ' '] ++
        quote :: (value ++ quote :: (' ' :: tail ++ '\n' :: rest)) =
          name' ++ [' '] ++ quote :: (value' ++ quote :: '\n' :: rest') := by
      simpa using same
    rcases append_cons_inj_of_first (List.not_mem_append absent (by decide))
      (List.not_mem_append absent' (by decide)) split with ⟨_, quoted⟩
    rcases append_cons_inj_of_first absentValue absentValue' quoted with ⟨_, ends⟩
    simp at ends

/-- Two items that are no lists are split at the quotation marks. -/
theorem eq_of_singles {name name' value value' rest rest' : List Char}
    (absent : quote ∉ name) (absent' : quote ∉ name') (absentValue : quote ∉ value)
    (absentValue' : quote ∉ value')
    (same : name ++ [' '] ++ quote :: (value ++ [quote]) ++ '\n' :: rest =
      name' ++ [' '] ++ quote :: (value' ++ [quote]) ++ '\n' :: rest') :
    name = name' ∧ value = value' ∧ rest = rest' := by
  have split : name ++ [' '] ++ quote :: (value ++ quote :: '\n' :: rest) =
      name' ++ [' '] ++ quote :: (value' ++ quote :: '\n' :: rest') := by
    simpa using same
  rcases append_cons_inj_of_first (List.not_mem_append absent (by decide))
    (List.not_mem_append absent' (by decide)) split with ⟨names, quoted⟩
  rcases append_cons_inj_of_first absentValue absentValue' quoted with ⟨values, ends⟩
  exact ⟨List.append_cancel_right names, values, by simpa using ends⟩

theorem selfDelimiting_item : SelfDelimiting (Framed [] ['\n'] Prints) := by
  rintro item item' _ _ ⟨text, printed, rfl⟩ ⟨text', printed', rfl⟩ rest rest' same
  simp only [List.nil_append, List.append_assoc, List.singleton_append] at same
  have plain := printed.1
  have plain' := printed'.1
  rcases isList : item.isList with _ | _ <;> rcases isList' : item'.isList with _ | _
  · rcases printed.single isList with ⟨value, only, rfl⟩
    rcases printed'.single isList' with ⟨value', only', rfl⟩
    have absent : quote ∉ value.toList := plain.quote_values value (by simp [only])
    have absent' : quote ∉ value'.toList := plain'.quote_values value' (by simp [only'])
    rcases eq_of_singles plain.quote_name plain'.quote_name absent absent' same with
      ⟨name, values, ends⟩
    refine ⟨PlayerDriverItem.ext (String.toList_inj.mp name) ?_ (by rw [isList, isList']), ends⟩
    rw [only, only', String.toList_inj.mp values]
  · rcases printed.single isList with ⟨value, only, rfl⟩
    rcases printed'.list isList' with ⟨values', printedValues', rfl⟩
    have absent : quote ∉ value.toList := plain.quote_values value (by simp [only])
    exact absurd same.symm (list_ne_single plain'.quote_name plain.quote_name plain.closing_name
      printedValues' absent)
  · rcases printed.list isList with ⟨values, printedValues, rfl⟩
    rcases printed'.single isList' with ⟨value', only', rfl⟩
    have absent' : quote ∉ value'.toList := plain'.quote_values value' (by simp [only'])
    exact absurd same (list_ne_single plain.quote_name plain'.quote_name plain'.closing_name
      printedValues absent')
  · rcases printed.list isList with ⟨values, printedValues, rfl⟩
    rcases printed'.list isList' with ⟨values', printedValues', rfl⟩
    have name := name_eq_of_lists plain.quote_name plain'.quote_name plain.closing_name
      plain'.closing_name printedValues printedValues' same
    rw [name] at same
    simp only [List.append_assoc, List.append_cancel_left_eq] at same
    rcases selfDelimiting_values printedValues printedValues' same with ⟨values, ends⟩
    refine ⟨PlayerDriverItem.ext (String.toList_inj.mp name) values (by rw [isList, isList']), ?_⟩
    simpa using ends

end PlayerDriverItem

namespace PlayerDriver

theorem isSome_toString_iff (driver : PlayerDriver) :
    driver.toString.isSome ↔ ∀ item ∈ driver.items, item.toString.isSome := by
  rw [← isSome_foldlM_append_iff driver.items "  " "\n" "driver (\n", toString]
  cases driver.items.foldlM (fun res item =>
    item.toString.map fun text => res ++ ("  " ++ text ++ "\n")) "driver (\n" <;> simp

/-- The items of a driver and its text, with the line that follows it in a configuration. -/
def PrintsItems : List PlayerDriverItem → List Char → Prop :=
  Framed "driver (\n".toList "\n".toList
    (ClosedBy ")\n".toList (Framed "  ".toList "\n".toList PlayerDriverItem.Prints))

theorem selfDelimiting_items : SelfDelimiting PrintsItems := by
  apply SelfDelimiting.framed
  apply SelfDelimiting.followed
  apply SelfDelimiting.closed
  · exact SelfDelimiting.framed _ PlayerDriverItem.selfDelimiting_item
  · -- an item begins with blanks, the closing line with a bracket
    rintro item _ ⟨_, _, rfl⟩ rest rest' same
    simp at same

theorem printsItems_ne_nil {items : List PlayerDriverItem} {text : List Char}
    (h : PrintsItems items text) : text ≠ [] := by
  rcases h with ⟨_, _, rfl⟩
  simp

theorem printsItems_of_toString {driver : PlayerDriver} {s : String}
    (plain : ∀ item ∈ driver.items, item.Plain) (h : driver.toString = some s) :
    PrintsItems driver.items (s ++ "\n").toList := by
  rcases Option.bind_eq_some_iff.mp h with ⟨res, loop, closed⟩
  cases closed
  rcases foldlM_append_eq_some _ _ loop with ⟨texts, printed, joined⟩
  refine ⟨texts.flatten ++ ")\n".toList, ⟨texts, ?_, rfl⟩, ?_⟩
  · refine ((List.forall₂_and_left _ _).mpr ⟨plain, printed⟩).imp ?_
    rintro item _ ⟨itemPlain, _, itemPrinted, rfl⟩
    exact ⟨_, ⟨itemPlain, itemPrinted⟩, rfl⟩
  · simp [joined, String.toList_append]

end PlayerDriver

namespace PlayerConfigImpl

/-- Every item of an enabled driver is plain. -/
def Plain (config : PlayerConfigImpl) : Prop :=
  ∀ items ∈ config.enabledItems, ∀ item ∈ items, item.Plain

instance (config : PlayerConfigImpl) : Decidable config.Plain :=
  inferInstanceAs (Decidable (∀ items ∈ config.enabledItems, ∀ item ∈ items, item.Plain))

/-- The text of a configuration is that of its enabled drivers. -/
theorem getConfigText_eq_enabled (config : PlayerConfigImpl) :
    config.getConfigText = (config.drivers.filter (·.enabled)).foldlM
      (fun res driver => driver.toString.map fun text => res ++ ("" ++ text ++ "\n")) "" := by
  simp only [getConfigText, List.foldlM_filter, String.empty_append]
  rfl

/-- Disabled drivers do not matter to the text. -/
theorem getConfigText_congr {config config' : PlayerConfigImpl}
    (same : config.enabledItems = config'.enabledItems) :
    config.getConfigText = config'.getConfigText := by
  have byItems : ∀ config : PlayerConfigImpl, config.getConfigText = config.enabledItems.foldlM
      (fun res items => (PlayerDriver.toString ⟨true, items⟩).map fun text =>
        res ++ ("" ++ text ++ "\n")) "" := by
    intro config
    rw [getConfigText_eq_enabled, enabledItems, List.foldlM_map]
    rfl
  rw [byItems, byItems, same]

/-- A configuration has a text when each item it prints is a list or has a value. -/
theorem isSome_getConfigText_iff (config : PlayerConfigImpl) :
    config.getConfigText.isSome ↔
      ∀ items ∈ config.enabledItems, ∀ item ∈ items, item.isList = false → item.values ≠ [] := by
  simp only [getConfigText_eq_enabled, isSome_foldlM_append_iff, PlayerDriver.isSome_toString_iff,
    PlayerDriverItem.isSome_toString_iff, enabledItems, List.forall_mem_map]

theorem printsItems_of_getConfigText {config : PlayerConfigImpl} {text : String}
    (plain : config.Plain) (h : config.getConfigText = some text) :
    ∃ texts, List.Forall₂ PlayerDriver.PrintsItems config.enabledItems texts ∧
      text.toList = texts.flatten := by
  rw [getConfigText_eq_enabled] at h
  rcases foldlM_append_eq_some _ _ h with ⟨texts, printed, joined⟩
  refine ⟨texts, ?_, by simpa using joined⟩
  rw [enabledItems, List.forall₂_map_left_iff]
  have driversPlain : ∀ driver ∈ config.drivers.filter (·.enabled),
      ∀ item ∈ driver.items, item.Plain := by
    intro driver mem
    exact plain driver.items (List.mem_map_of_mem mem)
  refine ((List.forall₂_and_left _ _).mpr ⟨driversPlain, printed⟩).imp ?_
  rintro driver _ ⟨driverPlain, _, ⟨s, driverPrinted, rfl⟩, rfl⟩
  simpa [String.toList_append] using
    PlayerDriver.printsItems_of_toString driverPlain driverPrinted

/-- Two plain configurations with the same text have the same enabled items. -/
theorem enabledItems_eq_of_getConfigText {config config' : PlayerConfigImpl} {text : String}
    (plain : config.Plain) (plain' : config'.Plain) (h : config.getConfigText = some text)
    (h' : config'.getConfigText = some text) : config.enabledItems = config'.enabledItems := by
  rcases printsItems_of_getConfigText plain h with ⟨texts, printed, joined⟩
  rcases printsItems_of_getConfigText plain' h' with ⟨texts', printed', joined'⟩
  exact PlayerDriver.selfDelimiting_items.eq_of_flatten
    (fun _ _ => PlayerDriver.printsItems_ne_nil) printed printed' (joined.symm.trans joined')

/-- The text of the shipped configuration, in which a disabled driver leaves no trace. -/
theorem enabledItems_eq_of_getConfigText_default :
    getDefaultCorobotConfig.enabledItems =
      PlayerConfigImpl.enabledItems
        ⟨getDefaultCorobotConfig.drivers ++ [⟨false, [.ofValues "name" []]⟩]⟩ :=
  enabledItems_eq_of_getConfigText (by decide) (by decide)
    (show getDefaultCorobotConfig.getConfigText = some ("driver (\n  name \"stage\"\n" ++
      "  plugin \"stageplugin\"\n  worldfile \"mrs_grass.world\"\n  usegui \"1\"\n" ++
      "  provides [ \"6650:simulation:0\" ]\n)\n\ndriver (\n  name \"stage\"\n" ++
      "  model \"rob1\"\n  provides [ \"6665:position2d:0\"  \"6665:ranger:0\" " ++
      " \"6665:fiducial:0\"  \"6665:blobfinder:0\" ]\n)\n\n") by decide +kernel)
    (by decide +kernel)

/-- A configuration of one driver. -/
def ofItems (items : List PlayerDriverItem) : PlayerConfigImpl :=
  ⟨[⟨true, items⟩]⟩

/-- A configuration shares its text with a plain one that says something else. -/
def MistakenFor (config plain : PlayerConfigImpl) : Prop :=
  config.getConfigText = plain.getConfigText ∧ plain.getConfigText.isSome ∧ plain.Plain ∧
    config.enabledItems ≠ plain.enabledItems

instance (config plain : PlayerConfigImpl) : Decidable (config.MistakenFor plain) :=
  inferInstanceAs (Decidable (_ ∧ _ ∧ _ ∧ _))

/-- A quotation mark in a value or in a name, the text of an empty list in a name, and a value
that is not printed. -/
theorem getConfigText_ambiguous :
    (ofItems [.ofValue "model" "rob1\"\n  gui \"1"]).MistakenFor
        (ofItems [.ofValue "model" "rob1", .ofValue "gui" "1"]) ∧
      (ofItems [.ofValue "model \"rob1\"\n  gui" "1"]).MistakenFor
        (ofItems [.ofValue "model" "rob1", .ofValue "gui" "1"]) ∧
      (ofItems [.ofValues "provides []\n  requires" []]).MistakenFor
        (ofItems [.ofValues "provides" [], .ofValues "requires" []]) ∧
      (ofItems [⟨"model", ["rob1", "rob2"], false⟩]).MistakenFor
        (ofItems [.ofValue "model" "rob1"]) := by
  decide

end PlayerConfigImpl

end MrsOptimization
