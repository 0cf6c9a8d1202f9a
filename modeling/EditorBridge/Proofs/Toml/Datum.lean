/-
What TOML can say.

A text of TOML gives truth values, numbers, texts, moments, lists of such values, and tables of
them with texts for keys; there is no null.  While a document is read its tables are kept in a
`Nest`, which headings and entries change far below its root, so the invariant is that the whole
nest is such a value: whatever is changed behind a key, the tables on the way stay tables of
them.

As in JSON, values are read by functions that call one another with a bound on the depth, and
the induction is on the bound.  Every such table has a text again, unless an integer in it
has too many digits (`Datum.write_table`).
-/
import EditorBridge.Proofs.Value.Plain
import EditorBridge.Proofs.Params
import EditorBridge.Toml.Reader
import EditorBridge.Toml.Writer

namespace EditorBridge.Toml

/-- A value that TOML has a text for. -/
inductive Datum : Value → Prop
  | bool (b : Bool) : Datum (.bool b)
  | int (n : Int) : Datum (.int n)
  | float (x : Binary64) : Datum (.float x)
  | str (s : String) : Datum (.str s)
  | moment (m : Moment) : Datum (.moment m)
  | list {items : List Value} (h : ∀ v ∈ items, Datum v) : Datum (.list items)
  | dict {entries : List (Value × Value)} (hk : ∀ e ∈ entries, ∃ s, e.1 = .str s)
    (h : ∀ e ∈ entries, Datum e.2) : Datum (.dict entries)

namespace Datum

theorem emptyDict : Datum (.dict []) := .dict (by simp) (by simp)

theorem plain {v : Value} (h : Datum v) : v.Plain := by
  induction h with
  | bool b => exact .bool b
  | int n => exact .int n
  | float x => exact .float x
  | str s => exact .str s
  | moment m => exact .moment m
  | list _ ih => exact .list ih
  | dict hk _ ih => exact .dict hk ih

theorem isNull {v : Value} (h : Datum v) : v.isNull = false := by
  cases h <;> rfl

/-! ### Tables -/

theorem find? {key : String} {v : Value} {es : Entries} (h : Datum (.dict es))
    (hv : Value.find? (.str key) es = some v) : Datum v := by
  obtain ⟨e, he, rfl⟩ := Option.map_eq_some_iff.1 hv
  cases h with
  | dict _ h => exact h e (List.mem_of_find?_eq_some he)

/-- An entry more, or another value for an entry. -/
theorem put {key : String} {v : Value} {es : Entries} (h : Datum (.dict es)) (hv : Datum v) :
    Datum (.dict (Value.put (.str key) v es)) := by
  induction es with
  | nil => exact .dict (by simp [Value.put]) (by simp [Value.put, hv])
  | cons e es ih =>
    cases h with
    | dict hk h =>
      obtain ⟨he, hk⟩ := List.forall_mem_cons.1 hk
      obtain ⟨hv', h⟩ := List.forall_mem_cons.1 h
      unfold Value.put
      split
      · exact .dict (List.forall_mem_cons.2 ⟨he, hk⟩) (List.forall_mem_cons.2 ⟨hv, h⟩)
      · cases ih (.dict hk h) with
        | dict hk' h' =>
          exact .dict (List.forall_mem_cons.2 ⟨he, hk'⟩) (List.forall_mem_cons.2 ⟨hv', h'⟩)

/-- One item more. -/
theorem append {vs : List Value} {v : Value} (h : Datum (.list vs)) (hv : Datum v) :
    Datum (.list (vs ++ [v])) := by
  cases h with
  | list h => exact .list (by simpa [or_imp, forall_and] using ⟨h, hv⟩)

end Datum

/-- **Whatever is changed behind a key, the tables on the way stay tables of data.** -/
theorem Entries.datum_change {lists : Bool} {f : Entries → Option Entries}
    (hf : ∀ {es es'}, Datum (.dict es) → f es = some es' → Datum (.dict es')) {key : Key}
    {es es' : Entries} (hes : Datum (.dict es)) (h : change lists f key es = some es') :
    Datum (.dict es') := by
  induction key generalizing es es' with
  | nil => exact hf hes h
  | cons k ks ih =>
    unfold change at h
    split at h
    · obtain ⟨inner, hinner, h⟩ := Option.bind_eq_some_iff.1 h
      cases h
      exact hes.put (ih .emptyDict hinner)
    · rename_i hfind
      obtain ⟨inner, hinner, h⟩ := Option.bind_eq_some_iff.1 h
      cases h
      exact hes.put (ih (hes.find? hfind) hinner)
    · rename_i vs hfind
      split at h
      · rename_i last hlast
        obtain ⟨inner, hinner, h⟩ := Option.bind_eq_some_iff.1 h
        cases h
        cases hes.find? hfind with
        | list hvs =>
          refine hes.put (.append (.list fun v hv => hvs v (List.dropLast_subset vs hv)) ?_)
          exact ih (hvs _ (List.mem_of_getLast? hlast)) hinner
      · cases h
    · cases h

theorem Entries.datum_insert {lists : Bool} {key : Key} {v : Value} {es es' : Entries}
    (hes : Datum (.dict es)) (hv : Datum v) (h : insert lists key v es = some es') :
    Datum (.dict es') := by
  refine datum_change (fun {inner _} hinner h => ?_) hes h
  dsimp only at h
  split at h <;> cases h
  exact hinner.put hv

theorem Entries.datum_append {key : Key} {es es' : Entries} (hes : Datum (.dict es))
    (h : append key es = some es') : Datum (.dict es') := by
  refine datum_change (fun {inner _} hinner h => ?_) hes h
  dsimp only at h
  split at h
  · cases h
    exact hinner.put (.list (by simp [Datum.emptyDict]))
  · rename_i hfind
    cases h
    exact hinner.put ((hinner.find? hfind).append .emptyDict)
  · cases h

/-! ### The nest -/

namespace Nest

/-- The tables of a nest as a value. -/
def Sound (n : Nest) : Prop := Datum (.dict n.entries)

variable {n n' : Nest} {key : Key} {v : Value}

theorem sound_empty : ({} : Nest).Sound := .emptyDict

theorem Sound.openTable (hn : n.Sound) (h : n.openTable key = some n') : n'.Sound := by
  unfold Nest.openTable at h
  dsimp only [bind, Option.bind] at h
  split at h
  · cases h
  · split at h
    · cases h
    · rename_i hes
      cases h
      refine Entries.datum_change (fun hes h => ?_) hn hes
      cases h
      exact hes

theorem Sound.openItem (hn : n.Sound) (h : n.openItem key = some n') : n'.Sound := by
  unfold Nest.openItem at h
  dsimp only [bind, Option.bind] at h
  split at h
  · cases h
  · split at h
    · cases h
    · rename_i hes
      cases h
      exact Entries.datum_append hn hes

theorem Sound.add (hn : n.Sound) (hv : Datum v) (h : n.add key v = some n') : n'.Sound := by
  unfold Nest.add at h
  dsimp only [bind, Option.bind] at h
  split at h
  · cases h
  · split at h
    · cases h
    · rename_i hes
      cases h
      exact Entries.datum_insert hn hv hes

theorem Sound.addInline (hn : n.Sound) (hv : Datum v) (h : n.addInline key v = some n') :
    n'.Sound := by
  unfold Nest.addInline at h
  dsimp only [bind, Option.bind] at h
  split at h
  · cases h
  · split at h
    · cases h
    · rename_i hes
      cases h
      exact Entries.datum_insert hn hv hes

end Nest

/-! ### Values -/

theorem datum_of_moment? {s r : List Char} {v : Value} (h : moment? s = some (.ok (v, r))) :
    Datum v := by
  unfold moment? at h
  split at h
  · split at h
    · cases h
    · split at h
      · cases h
        exact .moment _
      · split at h <;> cases h <;> exact .moment _
  · obtain ⟨a, -, h⟩ := Option.map_eq_some_iff.1 h
    cases h
    exact .moment _

theorem datum_of_basedInteger? {s r : List Char} {v : Value}
    (h : basedInteger? s = some (v, r)) : Datum v := by
  unfold basedInteger? at h
  split at h
  · obtain ⟨base, -, h⟩ := Option.bind_eq_some_iff.1 h
    obtain ⟨ds, -, h⟩ := Option.bind_eq_some_iff.1 h
    cases h
    exact .int _
  · cases h

theorem datum_of_decimal? {s r : List Char} {v : Value} (h : decimal? s = some (.ok (v, r))) :
    Datum v := by
  unfold decimal? at h
  obtain ⟨⟨whole, r'⟩, -, h⟩ := Option.bind_eq_some_iff.1 h
  dsimp only at h
  split at h
  all_goals
    split at h
    · split at h <;> cases h
      exact .int _
    · cases h
      exact .float _

theorem datum_of_numberWord? {s r : List Char} {v : Value} (h : numberWord? s = some (v, r)) :
    Datum v := by
  obtain ⟨⟨w, x⟩, -, h⟩ := List.exists_of_findSome?_eq_some h
  obtain ⟨r', -, h⟩ := Option.map_eq_some_iff.1 h
  cases h
  exact .float x

theorem datum_of_readPlain {s r : List Char} {v : Value} (h : readPlain s = .ok (v, r)) :
    Datum v := by
  unfold readPlain at h
  split at h
  · cases h
    exact .bool true
  · cases h
    exact .bool false
  · split at h
    · subst h
      exact datum_of_moment? ‹_›
    · split at h
      · cases h
        exact datum_of_basedInteger? ‹_›
      · split at h
        · subst h
          exact datum_of_decimal? ‹_›
        · split at h
          · cases h
            exact datum_of_numberWord? ‹_›
          · cases h

/-- A text in quotes is one. -/
theorem datum_of_text {x : Except Error (String × List Char)} {v : Value} {r : List Char}
    (h : (x.map fun (t, r) => (Value.str t, r)) = .ok (v, r)) : Datum v := by
  cases x with
  | error e => cases h
  | ok a =>
    cases h
    exact .str _

/-- What is read with a bound on the depth can be said in TOML. -/
def ReadsData (fuel : Nat) : Prop :=
  (∀ s v r, readValue fuel s = .ok (v, r) → Datum v) ∧
  (∀ acc s v r, (∀ x ∈ acc, Datum x) → readItems fuel acc s = .ok (v, r) → Datum v) ∧
  ∀ nest s v r, nest.Sound → readEntries fuel nest s = .ok (v, r) → Datum v

theorem readsData (fuel : Nat) : ReadsData fuel := by
  induction fuel with
  | zero =>
    refine ⟨fun s v r h => ?_, fun acc s v r _ h => ?_, fun nest s v r _ h => ?_⟩
    · simp [readValue] at h
    · simp [readItems] at h
    · simp [readEntries] at h
  | succ fuel ih =>
    obtain ⟨hvalue, hitems, hentries⟩ := ih
    refine ⟨fun s v r h => ?_, fun acc s v r hacc h => ?_, fun nest s v r hnest h => ?_⟩
    · unfold readValue at h
      split at h
      · exact datum_of_text h
      · exact datum_of_text h
      · exact datum_of_text h
      · exact datum_of_text h
      · obtain ⟨s', -, h⟩ := bind_ok_iff.1 h
        split at h
        · cases h
          exact .list (by simp)
        · exact hitems _ _ _ _ (by simp) h
      · split at h
        · cases h
          exact .emptyDict
        · exact hentries _ _ _ _ Nest.sound_empty h
      · exact datum_of_readPlain h
    · unfold readItems at h
      obtain ⟨⟨x, r'⟩, hx, h⟩ := bind_ok_iff.1 h
      have hx := hvalue _ _ _ hx
      have hall : ∀ y ∈ x :: acc, Datum y := List.forall_mem_cons.2 ⟨hx, hacc⟩
      have hlist : Datum (.list (x :: acc).reverse) :=
        .list fun y hy => hall y (List.mem_reverse.1 hy)
      obtain ⟨s', -, h⟩ := bind_ok_iff.1 h
      split at h
      · cases h
        exact hlist
      · obtain ⟨s', -, h⟩ := bind_ok_iff.1 h
        split at h
        · cases h
          exact hlist
        · exact hitems _ _ _ _ hall h
      · cases h
    · unfold readEntries at h
      obtain ⟨⟨key, r'⟩, -, h⟩ := bind_ok_iff.1 h
      obtain ⟨⟨x, r'⟩, hx, h⟩ := bind_ok_iff.1 h
      have hx := hvalue _ _ _ hx
      dsimp only at h
      split at h
      · cases h
      · have hnest := hnest.addInline hx ‹_›
        split at h
        · cases h
          exact hnest
        · exact hentries _ _ _ _ hnest h
        · cases h

/-! ### Documents -/

theorem sound_of_readHeading {nest nest' : Nest} {s r : List Char} (hn : nest.Sound)
    (h : readHeading nest s = .ok (nest', r)) : nest'.Sound := by
  unfold readHeading at h
  obtain ⟨⟨key, r'⟩, -, h⟩ := bind_ok_iff.1 h
  dsimp only at h
  split at h
  · rename_i hnest htrue
    cases h
    rw [htrue, if_pos rfl] at hnest
    exact hn.openItem hnest
  · rename_i hnest hfalse
    cases h
    rw [hfalse, if_neg Bool.false_ne_true] at hnest
    exact hn.openTable hnest
  · cases h

theorem sound_of_readEntry {nest nest' : Nest} {s r : List Char} (hn : nest.Sound)
    (h : readEntry nest s = .ok (nest', r)) : nest'.Sound := by
  unfold readEntry at h
  obtain ⟨⟨key, r'⟩, -, h⟩ := bind_ok_iff.1 h
  obtain ⟨⟨x, r'⟩, hx, h⟩ := bind_ok_iff.1 h
  have hdata := (readsData _).1 _ _ _ hx
  dsimp only at h
  split at h
  · cases h
    exact hn.add hdata ‹_›
  · cases h

theorem sound_of_readStatement {nest nest' : Nest} {s r : List Char} (hn : nest.Sound)
    (h : readStatement nest s = .ok (nest', r)) : nest'.Sound := by
  unfold readStatement at h
  split at h
  · exact sound_of_readHeading hn h
  · cases h
    exact hn
  · cases h
    exact hn
  · cases h
    exact hn
  · exact sound_of_readEntry hn h

theorem sound_of_readDocument {fuel : Nat} {nest nest' : Nest} {s : List Char} (hn : nest.Sound)
    (h : readDocument fuel nest s = .ok nest') : nest'.Sound := by
  induction fuel generalizing nest s with
  | zero => simp [readDocument] at h
  | succ fuel ih =>
    unfold readDocument at h
    obtain ⟨⟨nest'', r⟩, hstatement, h⟩ := bind_ok_iff.1 h
    have hn'' := sound_of_readStatement hn hstatement
    obtain ⟨s', -, h⟩ := bind_ok_iff.1 h
    split at h
    · cases h
      exact hn''
    · exact ih hn'' h
    · cases h

/-- **A text of TOML gives a table without null in it.** -/
theorem datum_of_parse {text : String} {v : Value} (h : parse text = .ok v) : Datum v := by
  unfold parse at h
  obtain ⟨nest, hnest, h⟩ := bind_ok_iff.1 h
  cases h
  exact sound_of_readDocument Nest.sound_empty hnest

/-! ### Writing -/

/-- Something is written, or it cannot be shown and has an integer with too many digits. -/
def Yields (shows : Bool) {α : Type} (r : Except Unwritable α) : Prop :=
  (∃ a, r = .ok a) ∨ r = .error .tooManyDigits ∧ shows = false

namespace Yields

variable {α β : Type} {b b' : Bool} {r : Except Unwritable α} {k : α → Except Unwritable β}

theorem pure (x : α) : Yields b (Pure.pure x : Except Unwritable α) := .inl ⟨x, rfl⟩

theorem bind (h : Yields b r) (hk : ∀ x, r = .ok x → Yields b' (k x)) :
    Yields (b && b') (r >>= k) := by
  obtain ⟨x, rfl⟩ | ⟨rfl, rfl⟩ := h
  · obtain hx | ⟨hx, rfl⟩ := hk x rfl
    · exact .inl hx
    · exact .inr ⟨hx, Bool.and_false b⟩
  · exact .inr ⟨rfl, rfl⟩

/-- What goes on well as soon as something is written. -/
theorem andThen (h : Yields b r) (hk : ∀ x, ∃ y, k x = .ok y) : Yields b (r >>= k) := by
  have hbind : Yields (b && true) (r >>= k) := h.bind fun x _ => .inl (hk x)
  rwa [Bool.and_true] at hbind

/-- Less can be shown of more. -/
theorem weaken (h : Yields b r) (hb : b = false → b' = false) : Yields b' r :=
  h.imp id fun h => ⟨h.1, hb h.2⟩

end Yields

theorem writeKey_ok {k : Value} (h : ∃ s, k = .str s) : ∃ s, writeKey k = .ok s := by
  obtain ⟨s, rfl⟩ := h
  exact ⟨_, rfl⟩

theorem shows_key {k : Value} (h : ∃ s, k = .str s) : k.shows = true := by
  obtain ⟨s, rfl⟩ := h
  rfl

theorem writeItems_yields {level : Nat} {vs : List Value}
    (h : ∀ v ∈ vs, Yields v.shows (writeValue level v)) :
    Yields (Value.showsItems vs) (writeItems level vs) := by
  induction vs with
  | nil =>
    rw [writeItems]
    exact .pure []
  | cons v vs ih =>
    obtain ⟨hv, hvs⟩ := List.forall_mem_cons.1 h
    rw [writeItems]
    exact hv.bind fun s _ => (ih hvs).andThen fun ss => ⟨_, rfl⟩

theorem writeEntries_yields {es : Entries} (hk : ∀ e ∈ es, ∃ s, e.1 = .str s)
    (h : ∀ e ∈ es, Yields e.2.shows (writeValue 0 e.2)) :
    Yields (Value.showsEntries es) (writeEntries es) := by
  induction es with
  | nil =>
    rw [writeEntries]
    exact .pure []
  | cons e es ih =>
    obtain ⟨k, v⟩ := e
    obtain ⟨hkey, hk⟩ := List.forall_mem_cons.1 hk
    obtain ⟨hv, hes⟩ := List.forall_mem_cons.1 h
    obtain ⟨key, hwritten⟩ := writeKey_ok hkey
    rw [writeEntries, hwritten, Value.showsEntries, shows_key hkey, Bool.true_and]
    exact hv.bind fun s _ => (ih hk hes).andThen fun ss => ⟨_, rfl⟩

namespace Datum

variable {level : Nat} {v : Value} {vs : List Value} {es : Entries}

theorem writeValue_yields (h : Datum v) (level : Nat) : Yields v.shows (writeValue level v) := by
  induction h generalizing level with
  | bool | float | str | moment => exact .inl ⟨_, by rw [writeValue]⟩
  | int n =>
    rw [writeValue]
    split
    · exact .inl ⟨_, rfl⟩
    · rename_i hfit
      exact .inr ⟨rfl, by simpa [Value.shows] using hfit⟩
  | @list items _ ih =>
    cases items with
    | nil => exact .inl ⟨_, by rw [writeValue]⟩
    | cons v vs =>
      simp only [writeValue]
      exact (writeItems_yields fun v hv => ih v hv (level + 1)).andThen fun ss => ⟨_, rfl⟩
  | @dict entries hk _ ih =>
    cases entries with
    | nil => exact .inl ⟨_, by rw [writeValue]⟩
    | cons e es =>
      simp only [writeValue]
      exact (writeEntries_yields hk fun e he => ih e he 0).andThen fun ss => ⟨_, rfl⟩

theorem allFit_yields (h : ∀ v ∈ vs, Datum v) : Yields (Value.showsItems vs) (allFit vs) := by
  induction vs with
  | nil =>
    rw [allFit]
    exact .pure true
  | cons v vs ih =>
    obtain ⟨hv, hvs⟩ := List.forall_mem_cons.1 h
    rw [allFit]
    refine ((hv.writeValue_yields 0).andThen fun s => ⟨_, rfl⟩).bind fun fits _ => ?_
    cases fits
    · exact .pure false
    · exact ih hvs

/-- Where a table is written can be told, unless it cannot be shown. -/
theorem placeOf_yields (h : Datum v) : Yields v.shows (placeOf v) := by
  cases h with
  | bool | int | float | str | moment | dict => exact .inl ⟨_, rfl⟩
  | list h =>
    unfold placeOf
    dsimp only
    split
    · exact (allFit_yields h).andThen fun b => ⟨_, rfl⟩
    · exact .inl ⟨_, rfl⟩

theorem plainEntries_yields (hk : ∀ e ∈ es, ∃ s, e.1 = .str s) (h : ∀ e ∈ es, Datum e.2) :
    Yields (Value.showsEntries es) (plainEntries es) := by
  induction es with
  | nil =>
    rw [plainEntries]
    exact .pure []
  | cons e es ih =>
    obtain ⟨k, v⟩ := e
    obtain ⟨hkey, hk⟩ := List.forall_mem_cons.1 hk
    obtain ⟨hv, hes⟩ := List.forall_mem_cons.1 h
    obtain ⟨key, hwritten⟩ := writeKey_ok hkey
    have hrest := ih hk hes
    have hshown := (hv.writeValue_yields 0).bind fun s _ =>
      hrest.andThen (k := fun ls => .ok ((key ++ " = " ++ s ++ "\n") :: ls)) fun ls => ⟨_, rfl⟩
    rw [plainEntries, hwritten, Value.showsEntries, shows_key hkey, Bool.true_and]
    obtain ⟨place, hplace⟩ | ⟨hplace, hshows⟩ := hv.placeOf_yields
    · rw [hplace]
      cases place with
      | plain => exact hshown
      | table | tables => exact hrest.weaken fun h => by rw [h, Bool.and_false]
    · exact .inr ⟨by rw [hplace]; rfl, by rw [hshows, Bool.false_and]⟩

/-- What is written below the entry with that name. -/
def paragraphs (name : String) (v : Value) : Place → Except Unwritable (List String)
  | .plain => Pure.pure []
  | .table => writeTable name false v
  | .tables => match v with
    | .list ts | .tuple ts => writeAll name ts
    | _ => Pure.pure []

theorem writeBelow_cons {k : Value} {key : String} {place : Place} (hkey : writeKey k = .ok key)
    (hplace : placeOf v = .ok place) (name : String) :
    writeBelow name ((k, v) :: es) = paragraphs (nameBelow name key) v place >>= fun here =>
      writeBelow name es >>= fun below => Pure.pure (here ++ below) := by
  rw [writeBelow, hplace, hkey]
  cases place with
  | plain | table => rfl
  | tables => cases v <;> rfl

/-- A table is written under any heading, and a list of tables under one for each. -/
def HasParagraphs (v : Value) : Prop :=
  (∀ name inList, Yields v.shows (writeTable name inList v)) ∧
    ∀ vs, v = .list vs → ∀ name, Yields v.shows (writeAll name vs)

theorem writeAll_yields (h : ∀ v ∈ vs, HasParagraphs v) (name : String) :
    Yields (Value.showsItems vs) (writeAll name vs) := by
  induction vs with
  | nil =>
    rw [writeAll]
    exact .pure []
  | cons v vs ih =>
    obtain ⟨hv, hvs⟩ := List.forall_mem_cons.1 h
    rw [writeAll]
    exact (hv.1 name true).bind fun ps _ => (ih hvs).andThen fun qs => ⟨_, rfl⟩

theorem writeBelow_yields (hk : ∀ e ∈ es, ∃ s, e.1 = .str s) (h : ∀ e ∈ es, Datum e.2)
    (hp : ∀ e ∈ es, HasParagraphs e.2) (name : String) :
    Yields (Value.showsEntries es) (writeBelow name es) := by
  induction es with
  | nil =>
    rw [writeBelow]
    exact .pure []
  | cons e es ih =>
    obtain ⟨k, v⟩ := e
    obtain ⟨hkey, hk⟩ := List.forall_mem_cons.1 hk
    obtain ⟨hv, hes⟩ := List.forall_mem_cons.1 h
    obtain ⟨⟨htable, hall⟩, hps⟩ := List.forall_mem_cons.1 hp
    obtain ⟨key, hwritten⟩ := writeKey_ok hkey
    rw [Value.showsEntries, shows_key hkey, Bool.true_and]
    obtain ⟨place, hplace⟩ | ⟨hplace, hshows⟩ := hv.placeOf_yields
    · rw [writeBelow_cons hwritten hplace]
      refine Yields.bind ?_ fun here _ => (ih hk hes hps).andThen fun below => ⟨_, rfl⟩
      cases place with
      | plain => exact .pure []
      | table => exact htable (nameBelow name key) false
      | tables =>
        cases hv with
        | list => exact hall _ rfl (nameBelow name key)
        | bool | int | float | str | moment | dict => exact .pure []
    · exact .inr ⟨by rw [writeBelow, hplace]; rfl, by rw [hshows, Bool.false_and]⟩

theorem hasParagraphs (h : Datum v) : HasParagraphs v := by
  induction h with
  | bool | int | float | str | moment =>
    exact ⟨fun _ _ => .inl ⟨_, by rw [writeTable]; simp⟩, nofun⟩
  | list _ ih =>
    refine ⟨fun _ _ => .inl ⟨_, by rw [writeTable]; simp⟩, fun vs hvs name => ?_⟩
    cases hvs
    exact writeAll_yields ih name
  | dict hk h ih =>
    refine ⟨fun name inList => ?_, nofun⟩
    rw [writeTable]
    refine ((plainEntries_yields hk h).bind fun lines _ =>
      (writeBelow_yields hk h ih name).andThen fun below => ⟨_, rfl⟩).weaken fun h => ?_
    rwa [Bool.and_self] at h

/-! #### What was written can be shown -/

theorem shows_of_writeItems {ss : List String} (h : writeItems level vs = .ok ss)
    (ih : ∀ v ∈ vs, ∀ {s}, writeValue level v = .ok s → v.shows = true) :
    Value.showsItems vs = true := by
  induction vs generalizing ss with
  | nil => rfl
  | cons v vs ihs =>
    obtain ⟨hv, hvs⟩ := List.forall_mem_cons.1 ih
    rw [writeItems] at h
    obtain ⟨s, hs, h⟩ := bind_ok_iff.1 h
    obtain ⟨ss, hss, -⟩ := bind_ok_iff.1 h
    rw [Value.showsItems, hv hs, ihs hss hvs, Bool.and_self]

theorem shows_of_writeEntries {ss : List String} (hk : ∀ e ∈ es, ∃ s, e.1 = .str s)
    (h : writeEntries es = .ok ss)
    (ih : ∀ e ∈ es, ∀ {s}, writeValue 0 e.2 = .ok s → e.2.shows = true) :
    Value.showsEntries es = true := by
  induction es generalizing ss with
  | nil => rfl
  | cons e es ihs =>
    obtain ⟨k, v⟩ := e
    obtain ⟨hkey, hk⟩ := List.forall_mem_cons.1 hk
    obtain ⟨hv, hes⟩ := List.forall_mem_cons.1 ih
    rw [writeEntries] at h
    obtain ⟨key, -, h⟩ := bind_ok_iff.1 h
    obtain ⟨s, hs, h⟩ := bind_ok_iff.1 h
    obtain ⟨ss, hss, -⟩ := bind_ok_iff.1 h
    rw [Value.showsEntries, shows_key hkey, hv hs, ihs hk hss hes, Bool.and_self, Bool.and_self]

theorem shows_of_writeValue (h : Datum v) {s : String} (hs : writeValue level v = .ok s) :
    v.shows = true := by
  induction h generalizing level s with
  | bool | float | str | moment => rfl
  | int n =>
    rw [writeValue] at hs
    split at hs
    · assumption
    · cases hs
  | @list items _ ih =>
    cases items with
    | nil => rfl
    | cons v vs =>
      simp only [writeValue] at hs
      obtain ⟨ss, hss, -⟩ := bind_ok_iff.1 hs
      exact shows_of_writeItems hss fun v hv _ hs => ih v hv hs
  | @dict entries hk _ ih =>
    cases entries with
    | nil => rfl
    | cons e es =>
      simp only [writeValue] at hs
      obtain ⟨ss, hss, -⟩ := bind_ok_iff.1 hs
      exact shows_of_writeEntries hk hss fun e he _ hs => ih e he hs

/-- What has a text below a heading can be shown. -/
def Readable (v : Value) : Prop :=
  (∀ es name inList ps, v = .dict es → writeTable name inList v = .ok ps → v.shows = true) ∧
    ∀ vs name ps, v = .list vs → vs.all isTable = true → writeAll name vs = .ok ps →
      v.shows = true

theorem shows_of_writeAll (h : ∀ v ∈ vs, Readable v) (htables : vs.all isTable = true)
    {name : String} {ps : List String} (hps : writeAll name vs = .ok ps) :
    Value.showsItems vs = true := by
  induction vs generalizing ps with
  | nil => rfl
  | cons v vs ih =>
    obtain ⟨hv, hvs⟩ := List.forall_mem_cons.1 h
    rw [List.all_cons, Bool.and_eq_true] at htables
    rw [writeAll] at hps
    obtain ⟨qs, hqs, hps⟩ := bind_ok_iff.1 hps
    obtain ⟨rs, hrs, -⟩ := bind_ok_iff.1 hps
    obtain ⟨es, rfl⟩ : ∃ es, v = .dict es := by
      unfold isTable at htables
      split at htables
      · exact ⟨_, rfl⟩
      · cases htables.1
    rw [Value.showsItems, hv.1 es name true qs rfl hqs, ih hvs htables.2 hrs, Bool.and_self]

/-- A list is written by paragraphs only if there are only tables in it. -/
theorem all_isTable_of_placeOf (h : placeOf (.list vs) = .ok .tables) :
    vs.all isTable = true := by
  unfold placeOf at h
  dsimp only at h
  split at h
  · rename_i htables
    exact htables.2
  · cases h

/-- Only a table is written as one. -/
theorem exists_dict_of_placeOf (h : placeOf v = .ok .table) : ∃ es, v = .dict es := by
  unfold placeOf at h
  split at h
  · exact ⟨_, rfl⟩
  · split at h
    · obtain ⟨b, -, h⟩ := bind_ok_iff.1 h
      cases b <;> cases h
    · cases h
  · split at h
    · obtain ⟨b, -, h⟩ := bind_ok_iff.1 h
      cases b <;> cases h
    · cases h
  · cases h

/-- **Each entry is written, before the subtables or among them.** -/
theorem shows_of_entries (hk : ∀ e ∈ es, ∃ s, e.1 = .str s) (h : ∀ e ∈ es, Datum e.2)
    (hr : ∀ e ∈ es, Readable e.2) {name : String} {ls ps : List String}
    (hls : plainEntries es = .ok ls) (hps : writeBelow name es = .ok ps) :
    Value.showsEntries es = true := by
  induction es generalizing ls ps with
  | nil => rfl
  | cons e es ih =>
    obtain ⟨k, v⟩ := e
    obtain ⟨hkey, hk⟩ := List.forall_mem_cons.1 hk
    obtain ⟨hv, hes⟩ := List.forall_mem_cons.1 h
    obtain ⟨⟨htable, htables⟩, hr⟩ := List.forall_mem_cons.1 hr
    obtain ⟨key, hwritten⟩ := writeKey_ok hkey
    rw [plainEntries] at hls
    obtain ⟨place, hplace, hls⟩ := bind_ok_iff.1 hls
    rw [writeBelow_cons hwritten hplace] at hps
    obtain ⟨here, hhere, hps⟩ := bind_ok_iff.1 hps
    obtain ⟨below, hbelow, -⟩ := bind_ok_iff.1 hps
    obtain ⟨hshows, ls', hls'⟩ : v.shows = true ∧ ∃ ls', plainEntries es = .ok ls' := by
      cases place with
      | plain =>
        obtain ⟨_, -, hls⟩ := bind_ok_iff.1 hls
        obtain ⟨s, hs, hls⟩ := bind_ok_iff.1 hls
        obtain ⟨ls', hls', -⟩ := bind_ok_iff.1 hls
        exact ⟨hv.shows_of_writeValue hs, ls', hls'⟩
      | table =>
        obtain ⟨es, rfl⟩ := exists_dict_of_placeOf hplace
        exact ⟨htable _ _ _ _ rfl hhere, ls, hls⟩
      | tables =>
        cases hv with
        | list => exact ⟨htables _ _ _ rfl (all_isTable_of_placeOf hplace) hhere, ls, hls⟩
        | bool | int | float | str | moment | dict => cases hplace
    rw [Value.showsEntries, shows_key hkey, hshows, ih hk hes hr hls' hbelow, Bool.and_self,
      Bool.and_self]

theorem readable (h : Datum v) : Readable v := by
  induction h with
  | bool | int | float | str | moment => exact ⟨nofun, nofun⟩
  | list _ ih =>
    refine ⟨nofun, fun vs name ps hvs htables hps => ?_⟩
    cases hvs
    exact shows_of_writeAll ih htables hps
  | dict hk h ih =>
    refine ⟨fun es name inList ps hes hps => ?_, nofun⟩
    cases hes
    rw [writeTable] at hps
    obtain ⟨ls, hls, hps⟩ := bind_ok_iff.1 hps
    obtain ⟨below, hbelow, -⟩ := bind_ok_iff.1 hps
    exact shows_of_entries hk h ih hls hbelow

/-- **A table of TOML has a text exactly if it can be shown**; otherwise it has an integer with too
many digits. -/
theorem write_table (h : Datum (.dict es)) :
    if (Value.dict es).shows then ∃ s, write (.dict es) = .ok s
    else write (.dict es) = .error .tooManyDigits := by
  obtain ⟨ps, hps⟩ | ⟨hps, hshows⟩ := h.hasParagraphs.1 "" false
  · rw [if_pos (h.readable.1 _ _ _ _ rfl hps)]
    exact ⟨_, by rw [write, hps]; rfl⟩
  · rw [if_neg (by simp [hshows]), write, hps]
    rfl

end Datum

end EditorBridge.Toml
