/-
The error stream of a server process is logged line by line.

What a process writes to its error stream arrives in chunks, in between anything else that goes
over the connection.  `Cut` says what the lines of bytes are, without a word about chunks, and
there is one way only to cut bytes (`Cut.unique`).  `Streamed` is what has become of the stream
at any time: each line whose end has arrived was logged once, in order, and what is behind the
last line break is kept, or is logged when the process ends.  So chunks do not matter.  Nor
does the stream matter to anything else: next to a run without it, all is the same but what is
logged and kept of it.

The end of a process may be noticed before the last of what it wrote arrives.  What arrives later
is cut anew, so a line may be logged in two parts, and what is behind the last line break is never
logged.

The induction is on what passes.  It carries what is kept: cutting it together with what arrives
goes on where the last cut ended (`Cut.append`).

The text of a line is not all of the line.  Carriage returns at its end are not logged, and a
replacement character stands for what is not UTF-8; of a line that is UTF-8 all else is logged
(`lineText_encode`).
-/
import EditorBridge.Proofs.Link.Aloof
import EditorBridge.Proofs.Text.Utf8

namespace EditorBridge.Link

open Act (Reads)
open Rpc (Bytes)
open Text.Utf8 (decodeLossy decodeLossy_encode encode encode_eq)

/-! ### Lines -/

/-- Bytes are cut at their line breaks: into the lines that are complete, without their breaks,
and the rest. -/
structure Cut (bs : Bytes) (lines : List Bytes) (rest : Bytes) : Prop where
  whole : bs = lines.flatMap (· ++ [10]) ++ rest
  lines : ∀ l ∈ lines, 10 ∉ l
  rest : 10 ∉ rest

section Lines

variable {bs bs' l rest rest' : Bytes} {lines lines' : List Bytes}

theorem completeLines_of_not_mem (h : 10 ∉ bs) : completeLines bs = ([], bs) := by
  induction bs with
  | nil => rfl
  | cons b bs ih =>
    obtain ⟨hb, hbs⟩ := not_or.1 (mt List.mem_cons.2 h)
    rw [completeLines, ih hbs]
    exact if_neg (Ne.symm hb)

theorem completeLines_break (h : 10 ∉ l) (bs : Bytes) :
    completeLines (l ++ 10 :: bs) = (l :: (completeLines bs).1, (completeLines bs).2) := by
  induction l with
  | nil => rfl
  | cons b l ih =>
    obtain ⟨hb, hl⟩ := not_or.1 (mt List.mem_cons.2 h)
    rw [List.cons_append, completeLines, ih hl]
    exact if_neg (Ne.symm hb)

/-- What is cut in any way is cut the way the program does it. -/
theorem Cut.eq (h : Cut bs lines rest) : completeLines bs = (lines, rest) := by
  obtain ⟨rfl, hlines, hrest⟩ := h
  induction lines with
  | nil => exact completeLines_of_not_mem hrest
  | cons l lines ih =>
    obtain ⟨hl, hlines⟩ := List.forall_mem_cons.1 hlines
    rw [List.flatMap_cons, List.append_assoc, List.append_assoc, List.singleton_append,
      completeLines_break hl, ih hlines]

/-- **There is one way to cut bytes** into lines. -/
theorem Cut.unique (h : Cut bs lines rest) (h' : Cut bs lines' rest') :
    lines = lines' ∧ rest = rest' :=
  Prod.mk.inj (h.eq.symm.trans h'.eq)

theorem cut_completeLines (bs : Bytes) : Cut bs (completeLines bs).1 (completeLines bs).2 := by
  induction bs with
  | nil => exact ⟨rfl, List.forall_mem_nil _, List.not_mem_nil⟩
  | cons b bs ih =>
    rw [completeLines]
    generalize completeLines bs = c at ih
    obtain ⟨lines, rest⟩ := c
    obtain ⟨rfl, hlines, hrest⟩ := ih
    dsimp only at hlines hrest ⊢
    by_cases hb : b = 10
    · subst hb
      exact ⟨rfl, List.forall_mem_cons.2 ⟨List.not_mem_nil, hlines⟩, hrest⟩
    · have hcons {l : Bytes} (hl : 10 ∉ l) : 10 ∉ b :: l :=
        List.not_mem_cons_of_ne_of_not_mem (Ne.symm hb) hl
      rw [if_neg hb]
      cases lines with
      | nil => exact ⟨rfl, List.forall_mem_nil _, hcons hrest⟩
      | cons l lines =>
        obtain ⟨hl, hlines⟩ := List.forall_mem_cons.1 hlines
        exact ⟨rfl, List.forall_mem_cons.2 ⟨hcons hl, hlines⟩, hrest⟩

/-- Cutting goes on where it ended. -/
theorem Cut.append (h : Cut bs lines rest) (h' : Cut (rest ++ bs') lines' rest') :
    Cut (bs ++ bs') (lines ++ lines') rest' := by
  refine ⟨?_, List.forall_mem_append.2 ⟨h.lines, h'.lines⟩, h'.rest⟩
  calc bs ++ bs' = lines.flatMap (· ++ [10]) ++ (rest ++ bs') := by
        rw [h.whole, List.append_assoc]
    _ = (lines ++ lines').flatMap (· ++ [10]) ++ rest' := by
        rw [h'.whole, List.flatMap_append, List.append_assoc]

/-- Of a line that is UTF-8 all is logged but the carriage returns at its end. -/
theorem lineText_encode (cs : List Char) :
    lineText (encode cs) = String.ofList (cs.reverse.dropWhile (· = '\r')).reverse := by
  rw [lineText, decodeLossy_encode]

end Lines

/-! ### What is logged -/

/-- The records of texts that are logged of an error stream, if such records are kept. -/
def recordsOf (j : Journal) (ts : List String) : List Record :=
  if j.keeps stderrLogger .info then ts.map fun t => ⟨stderrLogger.name, .info, t⟩ else []

/-- Texts are logged of an error stream. -/
def logged (ts : List String) (e : Env Link) : Env Link :=
  ⟨{ e.journal with records := e.journal.records ++ recordsOf e.journal ts }, e.state⟩

/-- Texts are logged of the error stream of a process, and some bytes of it are kept. -/
def noting (n : ProcessId) (ts : List String) (b : Bytes) (e : Env Link) : Env Link :=
  logged ts (Act.after (carrying n b) e)

/-- What is logged of bytes behind the last line break, if there are any. -/
def restTexts (b : Bytes) : List String :=
  if b.isEmpty then [] else [String.ofList (decodeLossy b)]

variable {n : ProcessId} {e e' e'' : Env Link} {b : Bytes} {ts : List String}

theorem recordsOf_nil (j : Journal) : recordsOf j [] = [] := by
  unfold recordsOf
  split <;> rfl

theorem recordsOf_append (j : Journal) (ts ts' : List String) :
    recordsOf j (ts ++ ts') = recordsOf j ts ++ recordsOf j ts' := by
  unfold recordsOf
  split
  · exact List.map_append
  · rfl

theorem recordsOf_like {j j' : Journal} (h : j.Like j') : recordsOf j ts = recordsOf j' ts := by
  unfold recordsOf
  rw [h.keeps]

theorem isErrorLine_of_mem {j : Journal} {r : Record} (h : r ∈ recordsOf j ts) :
    isErrorLine r = true := by
  unfold recordsOf at h
  split at h
  · obtain ⟨t, -, rfl⟩ := List.mem_map.1 h
    exact beq_self_eq_true _
  · cases h

theorem errorLines_logged (ts : List String) (e : Env Link) :
    errorLines (logged ts e).journal = errorLines e.journal ++ recordsOf e.journal ts := by
  have hall : (recordsOf e.journal ts).filter isErrorLine = recordsOf e.journal ts :=
    List.filter_eq_self.2 fun r hr => isErrorLine_of_mem hr
  show List.filter _ (_ ++ _) = _
  rw [List.filter_append, hall]
  rfl

/-- With the error stream all that is noted of it is taken away. -/
theorem silenced_noting (n : ProcessId) (ts : List String) (b : Bytes) (e : Env Link) :
    silenced n (noting n ts b e) = silenced n e := by
  have hnone : (recordsOf e.journal ts).filter (fun r => !isErrorLine r) = [] :=
    List.filter_eq_nil_iff.2 fun r hr => by simp [isErrorLine_of_mem hr]
  unfold silenced noting logged Act.after
  simp only [List.filter_append, hnone, List.append_nil, carrying_carrying]

theorem logged_nil (e : Env Link) : logged [] e = e := by
  unfold logged
  rw [recordsOf_nil, List.append_nil]

theorem logged_logged (ts ts' : List String) (e : Env Link) :
    logged ts' (logged ts e) = logged (ts ++ ts') e := by
  have hsame : recordsOf (logged ts e).journal ts' = recordsOf e.journal ts' := rfl
  rw [logged, hsame]
  unfold logged
  rw [recordsOf_append, List.append_assoc]

theorem noting_nil (h : carried n e.state = []) : noting n [] [] e = e := by
  have hstate := carrying_carried n e.state
  rw [h] at hstate
  rw [noting, logged_nil, Act.after, hstate]

/-- A text is logged of an error stream. -/
theorem log_stderr (t : String) (e : Env Link) :
    (Act.log stderrLogger .info t : Act Link Unit) e = (.ok (), logged [t] e) := by
  unfold Act.log Act.logBuilt logged recordsOf
  rw [Act.run_bind, Act.run_get]
  dsimp only
  split
  · rfl
  · rw [List.append_nil]
    rfl

/-- Lines are logged one after the other. -/
theorem log_lines (ls : List Bytes) (e : Env Link) :
    (do for l in ls do Act.log stderrLogger .info (lineText l) : Act Link Unit) e =
      (.ok (), logged (ls.map lineText) e) := by
  induction ls generalizing e with
  | nil => exact congrArg (Prod.mk _) (logged_nil e).symm
  | cons l ls ih =>
    have hall : logged (ls.map lineText) (logged [lineText l] e) =
        logged ((l :: ls).map lineText) e := logged_logged ..
    rw [← hall, ← ih, List.forIn_cons]
    simp only [bind_assoc, Act.run_bind, log_stderr, pure_bind]

/-- **Bytes of the error stream** are cut together with those that were kept. -/
theorem receiveStderr_eq (n : ProcessId) (bytes : Bytes) (e : Env Link) :
    receiveStderr n bytes e =
      (.ok (), noting n ((completeLines (carried n e.state ++ bytes)).1.map lineText)
        (completeLines (carried n e.state ++ bytes)).2 e) := by
  unfold receiveStderr
  rw [Act.run_bind, (reads_process n).reads]
  dsimp only
  rw [Act.run_bind]
  exact log_lines _ _

/-! ### The end of a process -/

/-- What is left to do when a process is gone: everybody who waits for it is told. -/
def departOf (x : Process) : Act Link Unit := do
  connectionLost x.peer none
  let _ ← settleOpen x.exited (.result (.code (if x.known then x.code else none)))

/-- A process is gone, as if nothing were kept of its error stream. -/
def depart (n : ProcessId) : Act Link Unit := do departOf (← process n)

theorem departOf_carrying (b : Bytes) (l : Link) :
    departOf ((carrying n b l).processes.getD n default) =
      departOf (l.processes.getD n default) :=
  getD_carrying departOf (fun _ _ => rfl) n n b l

instance aloof_depart : Aloof n (depart n) := by
  have hof (x : Process) : Aloof n (departOf x) := by
    unfold departOf
    infer_instance
  refine .read (fun l => ?_) fun l _ => hof _
  exact departOf_carrying [] l

/-- **A process that is gone**: what was kept of its error stream is logged first. -/
theorem processExited_eq (n : ProcessId) (e : Env Link) :
    processExited n e = depart n (noting n (restTexts (carried n e.state)) [] e) := by
  have hdepart (ts : List String) : depart n (noting n ts [] e) =
      departOf (e.state.processes.getD n default) (noting n ts [] e) := by
    rw [depart, Act.run_bind, (reads_process n).reads, ← departOf_carrying []]
    rfl
  unfold processExited
  rw [hdepart, Act.run_bind, (reads_process n).reads]
  by_cases hempty : (carried n e.state).isEmpty = true
  · have hnoting : noting n (restTexts (carried n e.state)) [] e = e := by
      rw [restTexts, if_pos hempty]
      exact noting_nil (List.isEmpty_iff.1 hempty)
    rw [hnoting]
    unfold carried at hempty
    simp only [hempty, Bool.not_true, Bool.false_eq_true, if_false]
    rfl
  · rw [restTexts, if_neg hempty]
    unfold carried at hempty
    have hkept : onProcess n (fun x => { x with stderr := [] }) e =
      (.ok (), Act.after (carrying n []) e) := rfl
    simp only [hempty, Bool.not_false, if_true]
    rw [Act.run_bind, hkept]
    dsimp only
    rw [Act.run_bind, log_stderr]
    rfl

/-! ### What passes -/

/-- What passes between the program and its server. -/
inductive Passage where
  /-- The process wrote to one of its outputs. -/
  | wrote (output : Int) (bytes : Bytes)
  /-- A notification is sent. -/
  | notifies (p : PeerId) (method : String) (params : Value)
  /-- A request is sent. -/
  | requests (p : PeerId) (method : String) (params : Value) (target : Wire.Target)
    (token : Option TokenId)
  /-- A token is cancelled, and with it the requests it belongs to. -/
  | cancels (t : TokenId)

namespace Passage

/-- How it passes; the outputs are those of one process. -/
def act (n : ProcessId) : Passage → Act Link Unit
  | wrote output bytes => receiveOutput n output bytes
  | notifies p method params => notify p method params
  | requests p method params target token => do
    let _ ← sendRequest p method params target token
  | cancels t => cancelToken t

/-- The bytes that arrived of the error stream. -/
def errorBytes : Passage → Bytes
  | wrote output bytes => if output = 2 then bytes else []
  | _ => []

/-- Whether it is not of the error stream. -/
def isOther : Passage → Bool
  | wrote output _ => output != 2
  | _ => true

theorem exists_wrote {x : Passage} (h : ¬x.isOther = true) : ∃ bytes, x = wrote 2 bytes := by
  cases x with
  | wrote output bytes =>
    obtain rfl : output = 2 := by simpa [isOther] using h
    exact ⟨bytes, rfl⟩
  | _ => exact absurd rfl h

theorem errorBytes_of_isOther {x : Passage} (h : x.isOther = true) : x.errorBytes = [] := by
  cases x with
  | wrote output bytes => exact if_neg (by simpa [isOther] using h)
  | _ => rfl

/-- Whatever else passes has nothing to do with the error stream. -/
theorem aloof_act {x : Passage} (h : x.isOther = true) : Aloof n (x.act n) := by
  cases x with
  | wrote output bytes =>
    have hother : output ≠ 2 := by simpa [isOther] using h
    have houtput : Aloof n (do receive (← process n).peer bytes) := by
      refine .read (fun l => ?_) fun l _ => inferInstance
      rw [getD_carrying Process.peer fun _ _ => rfl]
    show Aloof n (if output = 1 then _ else if output = 2 then _ else _)
    rw [if_neg hother]
    exact Aloof.ite _ _ _
  | notifies p method params => exact aloof_notify method params
  | requests p method params target token => exact Aloof.bind _ _
  | cancels t => exact aloof_cancelToken t

end Passage

/-- What passes, passes one after the other; a failure of one does not keep the next one away. -/
def passed (n : ProcessId) (xs : List Passage) (e : Env Link) : Env Link :=
  xs.foldl (fun e x => (x.act n e).2) e

/-- The process is gone. -/
def exited (n : ProcessId) (e : Env Link) : Env Link := (processExited n e).2

/-- All bytes that arrived of the error stream. -/
def errorBytes (xs : List Passage) : Bytes := xs.flatMap Passage.errorBytes

/-- All but what arrived of the error stream. -/
def others (xs : List Passage) : List Passage := xs.filter Passage.isOther

/-- There is such a process, and no complete line of its error stream is kept. -/
structure Listening (n : ProcessId) (e : Env Link) : Prop where
  there : n < e.state.processes.size
  named : Named e.state
  unbroken : 10 ∉ carried n e.state

/-- Bytes of the error stream were taken: lines of them were logged, and a rest is kept. -/
structure Took (n : ProcessId) (e e' : Env Link) (bs : Bytes) (lines : List Bytes)
    (rest : Bytes) : Prop where
  cut : Cut (carried n e.state ++ bs) lines rest
  logged : errorLines e'.journal =
    errorLines e.journal ++ recordsOf e.journal (lines.map lineText)
  carried : carried n e'.state = rest
  size : e'.state.processes.size = e.state.processes.size
  like : e'.journal.Like e.journal
  named : Named e.state → Named e'.state

namespace Took

variable {bs bs' rest rest' : Bytes} {lines lines' : List Bytes}

theorem of_untouched (h : Listening n e) (hs : Untouched n e e') :
    Took n e e' [] [] (Link.carried n e.state) where
  cut := ⟨List.append_nil _, List.forall_mem_nil _, h.unbroken⟩
  logged := by rw [List.map_nil, recordsOf_nil, List.append_nil, hs.lines]
  carried := hs.carried
  size := hs.size
  like := hs.like
  named := hs.named

theorem trans (h : Took n e e' bs lines rest) (h' : Took n e' e'' bs' lines' rest') :
    Took n e e'' (bs ++ bs') (lines ++ lines') rest' where
  cut := by
    have hcut := h'.cut
    rw [h.carried] at hcut
    rw [← List.append_assoc]
    exact h.cut.append hcut
  logged := by
    rw [h'.logged, h.logged, recordsOf_like h.like, List.append_assoc, List.map_append,
      recordsOf_append]
  carried := h'.carried
  size := h'.size.trans h.size
  like := h'.like.trans h.like
  named := fun hn => h'.named (h.named hn)

theorem listening (h : Took n e e' bs lines rest) (hl : Listening n e) : Listening n e' where
  there := h.size ▸ hl.there
  named := h.named hl.named
  unbroken := h.carried ▸ h.cut.rest

end Took

/-! ### One passage -/

/-- **Bytes that arrive** are taken together with those that were kept. -/
theorem receiveStderr_took (h : Listening n e) (bytes : Bytes) :
    ∃ lines rest, Took n e (receiveStderr n bytes e).2 bytes lines rest := by
  rw [receiveStderr_eq]
  refine ⟨_, _, cut_completeLines _, errorLines_logged _ _, carried_carrying h.there, ?_,
    ⟨rfl, rfl⟩, id⟩
  exact Array.size_modify

theorem act_took (h : Listening n e) (x : Passage) :
    ∃ lines rest, Took n e (x.act n e).2 x.errorBytes lines rest := by
  by_cases hx : x.isOther = true
  · rw [Passage.errorBytes_of_isOther hx]
    exact ⟨_, _, .of_untouched h ((Passage.aloof_act hx).untouched e h.named)⟩
  · obtain ⟨bytes, rfl⟩ := Passage.exists_wrote hx
    exact receiveStderr_took h bytes

/-- Bytes of the error stream are noticed by nothing else. -/
theorem silenced_wrote (n : ProcessId) (bytes : Bytes) (e : Env Link) :
    silenced n ((Passage.wrote 2 bytes).act n e).2 = silenced n e := by
  show silenced n (receiveStderr n bytes e).2 = _
  rw [receiveStderr_eq]
  exact silenced_noting ..

/-! ### All that passes -/

theorem passed_took (h : Listening n e) (xs : List Passage) :
    ∃ lines rest, Took n e (passed n xs e) (errorBytes xs) lines rest := by
  induction xs generalizing e with
  | nil => exact ⟨_, _, .of_untouched h (.refl n e)⟩
  | cons x xs ih =>
    obtain ⟨lines, rest, hx⟩ := act_took h x
    obtain ⟨lines', rest', hxs⟩ := ih (hx.listening h)
    exact ⟨_, _, hx.trans hxs⟩

/-- Without the error stream all else passes the same way. -/
theorem silenced_passed (h : Listening n e) (xs : List Passage) :
    silenced n (passed n xs e) = passed n (others xs) (silenced n e) := by
  induction xs generalizing e with
  | nil => rfl
  | cons x xs ih =>
    obtain ⟨lines, rest, htook⟩ := act_took h x
    show silenced n (passed n xs (x.act n e).2) = _
    rw [ih (htook.listening h)]
    by_cases hx : x.isOther = true
    · have hothers : others (x :: xs) = x :: others xs := List.filter_cons_of_pos hx
      rw [hothers]
      show _ = passed n (others xs) (x.act n (silenced n e)).2
      rw [(Passage.aloof_act hx).silenced e h.named]
    · have hothers : others (x :: xs) = others xs := List.filter_cons_of_neg hx
      obtain ⟨bytes, rfl⟩ := Passage.exists_wrote hx
      rw [hothers, silenced_wrote]

/-- So what else passes may as well pass alone. -/
theorem silenced_others (h : Listening n e) (xs : List Passage) :
    silenced n (passed n xs e) = silenced n (passed n (others xs) e) := by
  rw [silenced_passed h, silenced_passed h, others, others, List.filter_filter]
  simp only [Bool.and_self]

/-! ### The end -/

/-- The end of a process comes to the same without its error stream. -/
theorem processExited_silenced (he : Named e.state) (he' : Named e'.state)
    (h : silenced n e = silenced n e') :
    (processExited n e).1 = (processExited n e').1 ∧
      silenced n (exited n e) = silenced n (exited n e') := by
  have hdepart {e : Env Link} (he : Named e.state) : depart n (silenced n e) =
      ((processExited n e).1, silenced n (exited n e)) := by
    have hnoting := (aloof_depart (n := n)).silenced
      (noting n (restTexts (carried n e.state)) [] e) he
    rwa [silenced_noting, ← processExited_eq] at hnoting
  have hsame := hdepart he
  rw [h, hdepart he'] at hsame
  exact (Prod.mk.inj hsame).imp Eq.symm Eq.symm

/-- Once what was kept of the error stream is logged, the end of a process has nothing to do with
it. -/
theorem exited_untouched (h : Listening n e) :
    Untouched n (noting n (restTexts (carried n e.state)) [] e) (exited n e) := by
  rw [exited, processExited_eq]
  exact (aloof_depart (n := n)).untouched _ h.named

/-- What was kept of the error stream is logged, once. -/
theorem exited_lines (h : Listening n e) :
    errorLines (exited n e).journal =
      errorLines e.journal ++ recordsOf e.journal (restTexts (carried n e.state)) ∧
    carried n (exited n e).state = [] :=
  ⟨(exited_untouched h).lines.trans (errorLines_logged _ _),
    (exited_untouched h).carried.trans (carried_carrying h.there)⟩

/-- A process that is gone is listened to as before. -/
theorem exited_listening (h : Listening n e) : Listening n (exited n e) where
  there := (exited_untouched h).size.trans Array.size_modify ▸ h.there
  named := (exited_untouched h).named h.named
  unbroken := by
    rw [(exited_lines h).2]
    exact List.not_mem_nil

theorem exited_like (h : Listening n e) : (exited n e).journal.Like e.journal :=
  (exited_untouched h).like.trans ⟨rfl, rfl⟩

/-- What is kept of the error stream, and all else, is all. -/
theorem state_eq (h : silenced n e = silenced n e')
    (hc : carried n e.state = carried n e'.state) : e.state = e'.state := by
  have hcarrying : carrying n [] e.state = carrying n [] e'.state := congrArg Env.state h
  rw [← carrying_carried n e.state, ← carrying_carrying, hcarrying, hc, carrying_carrying,
    carrying_carried]

/-- What has become of the error stream of a process by now, and what becomes of it if the
process ends now. -/
structure Streamed (n : ProcessId) (e : Env Link) (xs : List Passage) (lines : List Bytes)
    (rest : Bytes) : Prop where
  cut : Cut (carried n e.state ++ errorBytes xs) lines rest
  /-- Each line whose end has arrived was logged, once and in order. -/
  soFar : errorLines (passed n xs e).journal =
    errorLines e.journal ++ recordsOf e.journal (lines.map lineText)
  kept : carried n (passed n xs e).state = rest
  /-- The rest is logged at the end, once, if there is any. -/
  atExit : errorLines (exited n (passed n xs e)).journal =
    errorLines e.journal ++ recordsOf e.journal (lines.map lineText ++ restTexts rest)
  nothingKept : carried n (exited n (passed n xs e)).state = []
  /-- All else is as it would be if nothing had arrived of the error stream. -/
  aside : silenced n (passed n xs e) = silenced n (passed n (others xs) e)
  asideAtExit : (processExited n (passed n xs e)).1 = (processExited n (passed n (others xs) e)).1 ∧
    silenced n (exited n (passed n xs e)) = silenced n (exited n (passed n (others xs) e))

/-- What passes before the end of a process is noticed, the end, and what passes later. -/
def outlived (n : ProcessId) (xs ys : List Passage) (e : Env Link) : Env Link :=
  passed n ys (exited n (passed n xs e))

/-- What has become of an error stream of which some arrived after the end of the process was
noticed, up to any time after it. -/
structure Outlived (n : ProcessId) (e : Env Link) (xs ys : List Passage) (lines : List Bytes)
    (rest : Bytes) (late : List Bytes) (lost : Bytes) : Prop where
  before : Streamed n e xs lines rest
  /-- What arrives late is cut by itself. -/
  cut : Cut (errorBytes ys) late lost
  /-- Of what arrives late the complete lines are logged, once and in order, and no rest is. -/
  logged : errorLines (outlived n xs ys e).journal = errorLines e.journal ++
    recordsOf e.journal (lines.map lineText ++ restTexts rest ++ late.map lineText)
  kept : carried n (outlived n xs ys e).state = lost
  /-- All else is as it would be if nothing had arrived of the error stream. -/
  aside : silenced n (outlived n xs ys e) = silenced n (outlived n (others xs) (others ys) e)

theorem exists_streamed (h : Listening n e) (xs : List Passage) :
    ∃ lines rest, Streamed n e xs lines rest := by
  obtain ⟨lines, rest, htook⟩ := passed_took h xs
  obtain ⟨_, _, hothers⟩ := passed_took h (others xs)
  obtain ⟨hlines, hnothing⟩ := exited_lines (htook.listening h)
  refine ⟨lines, rest, htook.cut, htook.logged, htook.carried, ?_, hnothing,
    silenced_others h xs, ?_⟩
  · rw [hlines, htook.logged, htook.carried, recordsOf_like htook.like, List.append_assoc,
      recordsOf_append]
  · exact processExited_silenced (htook.named h.named) (hothers.named h.named)
      (silenced_others h xs)

/-- What arrives late is cut anew, for nothing is kept at the end. -/
theorem exists_late (h : Listening n e) (xs ys : List Passage) :
    ∃ lines rest late lost, Outlived n e xs ys lines rest late lost := by
  obtain ⟨lines, rest, hbefore⟩ := exists_streamed h xs
  obtain ⟨_, _, htook⟩ := passed_took h xs
  obtain ⟨_, _, hothers⟩ := passed_took h (others xs)
  have hgone := exited_listening (htook.listening h)
  have hlike : (exited n (passed n xs e)).journal.Like e.journal :=
    (exited_like (htook.listening h)).trans htook.like
  obtain ⟨late, lost, hlate⟩ := passed_took hgone ys
  refine ⟨lines, rest, late, lost, hbefore, ?_, ?_, hlate.carried, ?_⟩
  · have hcut := hlate.cut
    rwa [hbefore.nothingKept] at hcut
  · rw [outlived, hlate.logged, hbefore.atExit, recordsOf_like hlike, List.append_assoc,
      ← recordsOf_append]
  · rw [outlived, outlived, silenced_others hgone, silenced_passed hgone,
      silenced_passed (exited_listening (hothers.listening h)), hbefore.asideAtExit.2]

/-- **The error stream is logged line by line**, whatever the chunks, and nothing else notices.  At
any time before the end of the process is noticed each line that is complete was logged; then the
rest is; and of what arrives later all but a rest. -/
theorem exists_outlived (h : Listening n e) (xs ys : List Passage) :
    ∃ lines rest late lost, Outlived n e xs ys lines rest late lost ∧
      ∀ xs' ys', errorBytes xs' = errorBytes xs → others xs' = others xs →
        errorBytes ys' = errorBytes ys → others ys' = others ys →
        Outlived n e xs' ys' lines rest late lost ∧
          (passed n xs' e).state = (passed n xs e).state ∧
          (exited n (passed n xs' e)).state = (exited n (passed n xs e)).state ∧
          (outlived n xs' ys' e).state = (outlived n xs ys e).state := by
  obtain ⟨lines, rest, late, lost, hxs⟩ := exists_late h xs ys
  refine ⟨lines, rest, late, lost, hxs, fun xs' ys' hbytes hothers hlateBytes hlateOthers => ?_⟩
  obtain ⟨lines', rest', late', lost', hxs'⟩ := exists_late h xs' ys'
  have hcut := hxs'.before.cut
  rw [hbytes] at hcut
  obtain ⟨rfl, rfl⟩ := hcut.unique hxs.before.cut
  have hcut := hxs'.cut
  rw [hlateBytes] at hcut
  obtain ⟨rfl, rfl⟩ := hcut.unique hxs.cut
  refine ⟨hxs', state_eq ?_ (hxs'.before.kept.trans hxs.before.kept.symm),
    state_eq ?_ (hxs'.before.nothingKept.trans hxs.before.nothingKept.symm),
    state_eq ?_ (hxs'.kept.trans hxs.kept.symm)⟩
  · rw [hxs'.before.aside, hxs.before.aside, hothers]
  · rw [hxs'.before.asideAtExit.2, hxs.before.asideAtExit.2, hothers]
  · rw [hxs'.aside, hxs.aside, hothers, hlateOthers]

/-- A process with a connection that has not written anything, and records of its lines are kept. -/
def watched : Env Link :=
  ⟨{ threshold := .info }, { peers := #[.ofClient], processes := #[{ peer := 0, exited := 0 }] }⟩

theorem listening_watched : Listening 0 watched := by
  refine ⟨by decide, fun p => ?_, List.not_mem_nil⟩
  cases p with
  | zero => decide
  | succ p => exact (by decide : (default : Peer).logger.name ≠ stderrLogger.name)

theorem recordsOf_watched (ts : List String) :
    recordsOf watched.journal ts = ts.map fun t => ⟨stderrLogger.name, .info, t⟩ := if_pos rfl

/-- A chunk may end within a character, and a block may come over the connection before the next
one does. -/
def cutLetter : List Passage :=
  [.wrote 2 [195], .wrote 1 [67, 13, 10], .wrote 2 [169, 13, 10, 104]]

/-- A line may end after the end of the process was noticed, and another may not end at all. -/
def lateLine : List Passage := [.wrote 2 [105, 10, 106]]

/-- The letter is logged as one, what is behind its line at the end, and the line that ends late
after that. -/
theorem exists_outlived_cutLetter : Listening 0 watched ∧
    ∃ lines rest late lost, Outlived 0 watched cutLetter lateLine lines rest late lost ∧
      errorLines (outlived 0 cutLetter lateLine watched).journal =
        [⟨stderrLogger.name, .info, "é"⟩, ⟨stderrLogger.name, .info, "h"⟩,
          ⟨stderrLogger.name, .info, "i"⟩] := by
  obtain ⟨lines, rest, late, lost, h, -⟩ := exists_outlived listening_watched cutLetter lateLine
  have hcut : Cut [195, 169, 13, 10, 104] [[195, 169, 13]] [104] := ⟨rfl, by decide, by decide⟩
  obtain ⟨rfl, rfl⟩ := h.before.cut.unique hcut
  have hlate : Cut [105, 10, 106] [[105]] [106] := ⟨rfl, by decide, by decide⟩
  obtain ⟨rfl, rfl⟩ := h.cut.unique hlate
  have hletter : lineText [195, 169, 13] = "é" := by
    have hbytes : encode ['é', '\r'] = [195, 169, 13] := encode_eq _
    rw [← hbytes, lineText_encode]
    rfl
  have hrest : decodeLossy [104] = ['h'] := by
    have hbytes : encode ['h'] = [104] := encode_eq _
    rw [← hbytes, decodeLossy_encode]
  have hline : lineText [105] = "i" := by
    have hbytes : encode ['i'] = [105] := encode_eq _
    rw [← hbytes, lineText_encode]
    rfl
  refine ⟨listening_watched, _, _, _, _, h, ?_⟩
  rw [h.logged, recordsOf_watched, restTexts, hrest, List.map_singleton, List.map_singleton,
    hletter, hline]
  rfl

/-- **Not all of the error stream is logged.**  Of a line two carriage returns at its end are not;
and what is behind the last line break is logged if it arrives before the end of the process is
noticed, but not if it arrives later. -/
theorem not_logged_whole :
    (¬∀ xs lines rest, Cut (errorBytes xs) lines rest →
      errorLines (passed 0 xs watched).journal =
        recordsOf watched.journal (lines.map fun l => String.ofList (decodeLossy l))) ∧
    errorLines (outlived 0 [.wrote 2 [97]] [] watched).journal =
      [⟨stderrLogger.name, .info, "a"⟩] ∧
    errorLines (outlived 0 [] [.wrote 2 [97]] watched).journal = [] := by
  have hbytes : encode ['a'] = [97] := encode_eq _
  have hdecoded : decodeLossy [97] = ['a'] := by rw [← hbytes, decodeLossy_encode]
  have hnone : Cut [] [] [] := ⟨rfl, List.forall_mem_nil _, List.not_mem_nil⟩
  have hrest : Cut [97] [] [97] := ⟨rfl, List.forall_mem_nil _, by decide⟩
  refine ⟨fun h => ?_, ?_, ?_⟩
  · have hcut : Cut [97, 13, 13, 10] [[97, 13, 13]] [] := ⟨rfl, by decide, by decide⟩
    have hwhole := h [.wrote 2 [97, 13, 13, 10]] _ _ hcut
    obtain ⟨lines, rest, htook⟩ := passed_took listening_watched [.wrote 2 [97, 13, 13, 10]]
    obtain ⟨rfl, rfl⟩ := htook.cut.unique hcut
    have hbytes : encode ['a', '\r', '\r'] = [97, 13, 13] := encode_eq _
    have hdecoded : decodeLossy [97, 13, 13] = ['a', '\r', '\r'] := by
      rw [← hbytes, decodeLossy_encode]
    have hline : lineText [97, 13, 13] = "a" := by
      rw [← hbytes, lineText_encode]
      rfl
    rw [htook.logged, List.map_singleton, List.map_singleton, hline, hdecoded, recordsOf_watched,
      recordsOf_watched] at hwhole
    exact absurd hwhole (by decide)
  · obtain ⟨lines, rest, late, lost, h⟩ := exists_late listening_watched [.wrote 2 [97]] []
    obtain ⟨rfl, rfl⟩ := h.before.cut.unique hrest
    obtain ⟨rfl, rfl⟩ := h.cut.unique hnone
    rw [h.logged, recordsOf_watched, restTexts, hdecoded]
    rfl
  · obtain ⟨lines, rest, late, lost, h⟩ := exists_late listening_watched [] [.wrote 2 [97]]
    obtain ⟨rfl, rfl⟩ := h.before.cut.unique hnone
    obtain ⟨rfl, rfl⟩ := h.cut.unique hrest
    rw [h.logged, recordsOf_watched]
    rfl

end EditorBridge.Link
