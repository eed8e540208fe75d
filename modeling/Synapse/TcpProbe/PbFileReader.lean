import Synapse.Trade.WireFormat

/-!
# `PbFileReader` and the send loop of `MsgSenderApp`

`MsgSenderApp` (`tools/tcp_probe/src/MsgSenderApp.cc`) replays a trade file. Its
`PbFileReader` (`PbFileReader.h`) keeps two lines of the file, the current one and
the next, in two buffers filled by `getline`, and the delta before the next line:
in KB mode the number after the first `'|'` of the next line. At each firing of
its timer the loop of `main` calls `timeout_cb`, which sends the current line less
its newline (`read_line`) and returns whether a next line follows; the loop stops
when it returns `false`, and otherwise waits the delta and calls `advance`, which
moves the next line to the current buffer and reads a new next line.

`get_KB_tstamp` looks for the first `'|'` with a loop that tests the pointer, not
the byte (`runner != '\0'`). On a string without a `'|'` (the empty buffer at the
end of the file, or a blank line) the scan runs past the string's NUL into the
rest of the buffer and beyond it. `read_line` gives a blank line the length `0`,
and `timeout_cb` then returns `false`.

## The model

A buffer is the string it holds, its bytes up to the first NUL; the file is the
lines `getline` returns one after the other, each with its newline, and `getline`
at the end of the file leaves its buffer as it is. `get_KB_tstamp` returns `none`
where its scan runs past the NUL: what it reads there is not modelled. The loop is
run over a number of firings of its timer; the times it waits are not modelled,
only the deltas it reads for them (`get_interval ()`). The connection is taken to
send every message.

## What is proved

* `getKBTstamp_lf`: on a blank line the scan runs past the NUL;
  `getKBTstamp_of_kbLine`: on a line of the file it reads the delta.
* `timeoutCb_fst`: `timeout_cb` sends what `Trade.timeoutCb` does with the line.
* `sendLoop_holds`: the run of the loop from a reader that holds a suffix of the
  file: the lines before the first blank line are sent, less their newlines.
* `kb_sender_replays`: on a file of entries, every line is sent once, in order,
  the loop stops after the last, the deltas read are those of the lines after the
  first, and the last `advance` scans the empty buffer past its NUL.
* `blank_line_stops_sender`: a blank line stops the loop; the lines after it are
  never sent.
-/

namespace Synapse.TcpProbe

open Trade (BAR LF R strtol cstr Digits digitsValue isDigit isSpace MINUS PLUS)

/-- `PbMode`. -/
inductive PbMode
  | CHIX
  | KB
  deriving DecidableEq, Repr

/-- A `PbFileReader`: the strings in `_current_line` and `_next_line`, `_interval`
(`none` where `get_KB_tstamp` read past the NUL of its string), the lines of
`_file_stream` that `getline` has still to read, and `_mode`. -/
structure PbFileReader where
  currentLine : List UInt8
  nextLine : List UInt8
  interval : Option UInt64
  fileStream : List (List UInt8)
  mode : PbMode
  deriving DecidableEq, Repr

/-- `while (line[0] == '\0') { if (getline (&line, …) < 0) break; }`: the string in
the buffer and the lines left after the loop. -/
def fillLine : List UInt8 → List (List UInt8) → List UInt8 × List (List UInt8)
  | [], l :: ls => fillLine (cstr l) ls
  | line, ls => (line, ls)

/-- `get_chix_tstamp (msg)`: `atoi` of the first eight bytes. -/
def getChixTstamp (msg : List UInt8) : Int32 := Int32.ofInt (strtol (msg.take 8))

/-- `get_KB_tstamp (msg)`: at the first `'|'` both tests of the loop hold, and
`strtoll` reads the number after it; with no `'|'` in the string the scan runs past
its NUL (`none`). -/
def getKBTstamp (msg : List UInt8) : Option UInt64 :=
  match msg.idxOf? BAR with
  | some i => some (UInt64.ofInt (strtol (msg.drop (i + 1))))
  | none => none

/-- `get_interval (next_line, current_line)`; its `else if (_mode = KB)` assigns
`KB`, the mode it is in already. -/
def getInterval (mode : PbMode) (nextLine currentLine : List UInt8) : Option UInt64 :=
  match mode with
  | .CHIX => some ((getChixTstamp nextLine - getChixTstamp currentLine).toInt64.toUInt64 * 1000)
  | .KB => getKBTstamp nextLine

/-- `PbFileReader::advance ()`. -/
def PbFileReader.advance (r : PbFileReader) : PbFileReader :=
  if r.currentLine = [] ∧ r.nextLine = [] then
    let (currentLine, rest) := fillLine [] r.fileStream
    let (nextLine, rest) := fillLine [] rest
    { r with currentLine, nextLine, fileStream := rest, interval := getInterval r.mode nextLine currentLine }
  else if r.currentLine ≠ [] ∧ r.nextLine = [] then r
  else if r.currentLine ≠ [] ∧ r.nextLine ≠ [] then
    -- the `do … while` after the `memset` of the next buffer is the loop of `fillLine`
    let (nextLine, rest) := fillLine [] r.fileStream
    { r with
      currentLine := r.nextLine, nextLine, fileStream := rest,
      interval := getInterval r.mode nextLine r.nextLine }
  else r

/-- `PbFileReader (file_name, in_memory_file, mode)` on a file whose lines are
`file`: both buffers zeroed, `_interval` zero, then `advance`. -/
def PbFileReader.new (file : List (List UInt8)) (mode : PbMode) : PbFileReader :=
  PbFileReader.advance ⟨[], [], some 0, file, mode⟩

/-- `read_line (line, line_len)`: the line (`none` for `NULL`), its `strlen` less one
for the newline, and whether a next line follows. -/
def PbFileReader.readLine (r : PbFileReader) : Option (List UInt8) × ℕ × Bool :=
  let (line, lineLen, status) :=
    if r.currentLine ≠ [] ∧ r.nextLine ≠ [] then (some r.currentLine, r.currentLine.length, true)
    else if r.currentLine ≠ [] ∧ r.nextLine = [] then (some r.currentLine, r.currentLine.length, false)
    else (none, 0, false)
  (line, if lineLen > 0 then lineLen - 1 else lineLen, status)

/-- `timeout_cb (connection, file_reader)`: the bytes sent, if any, and what it
returns. -/
def timeoutCb (r : PbFileReader) : Option (List UInt8) × Bool :=
  let (line, linelen, status) := r.readLine
  match line with
  | none => (none, false)
  | some line => if linelen = 0 then (none, false) else (some (line.take linelen), status)

/-- The loop of `main` over `fuel` firings of its timer: `timeout_cb`, then, if it
returned `true`, the wait of `get_interval ()` and `advance`. The lines sent, the
deltas read for the waits, the reader, and whether the loop stopped. -/
def sendLoop : ℕ → PbFileReader → List (List UInt8) × List (Option UInt64) × PbFileReader × Bool
  | 0, r => ([], [], r, false)
  | fuel + 1, r =>
    let (sent, status) := timeoutCb r
    if !status then (sent.toList, [], r, true)
    else
      let (lines, periods, r', stopped) := sendLoop fuel r.advance
      (sent.toList ++ lines, r.interval :: periods, r', stopped)

/-! ### The lines of a KB trade file -/

/-- A line of a KB trade file with the delta `delta`: `R|`, the delta's digits, `|`,
the rest of the entry and the newline, with no NUL. -/
def KBLine (l : List UInt8) (delta : ℕ) : Prop :=
  ∃ ds rest, l = [R, BAR] ++ ds ++ BAR :: rest ++ [LF] ∧ Digits ds ∧ ds.length ≤ 18 ∧ 0 ∉ rest ∧
    digitsValue ds = delta

/-- A line of the files the claim is about: an entry or a blank line. -/
def KBFileLine (l : List UInt8) : Prop := (∃ delta, KBLine l delta) ∨ l = [LF]

/-- A line `getline` reads into a buffer as it is: not empty, and without NUL. -/
def TextLine (l : List UInt8) : Prop := l ≠ [] ∧ 0 ∉ l

theorem KBLine.body {l : List UInt8} {delta : ℕ} (h : KBLine l delta) :
    ∃ body, l = body ++ [LF] ∧ body ≠ [] ∧ 0 ∉ body := by
  obtain ⟨ds, rest, rfl, hd, -, h0, -⟩ := h
  refine ⟨[R, BAR] ++ ds ++ BAR :: rest, by simp, by simp, ?_⟩
  have hds : 0 ∉ ds := fun h => by
    have := Trade.isDigit_iff.1 (hd 0 h)
    simp at this
  simp [R, BAR, hds, h0]

theorem KBFileLine.textLine {l : List UInt8} (h : KBFileLine l) : TextLine l := by
  rcases h with ⟨delta, hl⟩ | rfl
  · obtain ⟨body, rfl, hne, h0⟩ := hl.body
    exact ⟨by simp, by simp [h0, LF]⟩
  · exact ⟨by simp, by simp [LF]⟩

/-! ### `getline` and `get_KB_tstamp` -/

theorem fillLine_of_textLine {l : List UInt8} (hl : TextLine l) (ls : List (List UInt8)) :
    fillLine [] (l :: ls) = (l, ls) := by
  obtain ⟨c, cs, rfl⟩ := List.exists_cons_of_ne_nil hl.1
  rw [fillLine, Trade.cstr_of_zero_not_mem hl.2]
  cases ls <;> rfl

/-- The loop of `getline`s on a file of text lines reads the first of them, or
nothing at its end. -/
theorem fillLine_head {ls : List (List UInt8)} (hls : ∀ l ∈ ls, TextLine l) :
    fillLine [] ls = (ls.headD [], ls.tail) := by
  cases ls with
  | nil => rfl
  | cons l ls => exact fillLine_of_textLine (hls l List.mem_cons_self) ls

/-- On a blank line the scan runs past the NUL. -/
theorem getKBTstamp_lf : getKBTstamp [LF] = none := rfl

/-- On the empty buffer at the end of the file the scan runs past the NUL. -/
theorem getKBTstamp_nil : getKBTstamp [] = none := rfl

/-- On a line of the file, `get_KB_tstamp` reads its delta. -/
theorem getKBTstamp_of_kbLine {l : List UInt8} {delta : ℕ} (h : KBLine l delta) :
    getKBTstamp l = some (UInt64.ofInt delta) := by
  obtain ⟨ds, rest, rfl, hd, hlen, -, rfl⟩ := h
  have hidx : ([R, BAR] ++ ds ++ BAR :: rest ++ [LF]).idxOf? BAR = some 1 := by
    simp [List.idxOf?, List.findIdx?_cons, R, BAR]
  have hdrop : ([R, BAR] ++ ds ++ BAR :: rest ++ [LF]).drop (1 + 1) = ds ++ BAR :: (rest ++ [LF]) := by
    simp
  rw [getKBTstamp, hidx]
  dsimp only
  rw [hdrop, Trade.strtol_digits_append hd hlen (by simp [BAR, isDigit, isSpace, MINUS, PLUS])]

/-! ### `read_line` and `timeout_cb` -/

/-- `timeout_cb` sends what `Trade.timeoutCb` gives of the current line. -/
theorem timeoutCb_fst (r : PbFileReader) (h0 : 0 ∉ r.currentLine) :
    (timeoutCb r).1 = Trade.timeoutCb r.currentLine := by
  have hlen : (r.currentLine.takeWhile (· != 0)).length = r.currentLine.length := by
    rw [← Trade.cstr, Trade.cstr_of_zero_not_mem h0]
  unfold timeoutCb PbFileReader.readLine Trade.timeoutCb
  rw [hlen]
  by_cases hc : r.currentLine = []
  · simp [hc]
  · by_cases hn : r.nextLine = []
    · simp only [hc, hn, ne_eq, not_false_eq_true, not_true_eq_false, and_false, and_true, if_false,
        if_true]
      split_ifs <;> simp_all
    · simp only [hc, hn, ne_eq, not_false_eq_true, and_self, if_true]
      split_ifs <;> simp_all

/-- `timeout_cb` returns `true` when the current line has more than its newline and a
next line follows. -/
theorem timeoutCb_snd (r : PbFileReader) :
    (timeoutCb r).2 = (decide (1 < r.currentLine.length) && decide (r.nextLine ≠ [])) := by
  unfold timeoutCb PbFileReader.readLine
  by_cases hc : r.currentLine = []
  · simp [hc]
  · have hpos : 0 < r.currentLine.length := List.length_pos_iff.2 hc
    by_cases hn : r.nextLine = []
    · simp only [hc, hn, ne_eq, not_false_eq_true, not_true_eq_false, and_false, and_true, if_false,
        if_true]
      split_ifs <;> simp_all
    · simp only [hc, hn, ne_eq, not_false_eq_true, and_self, if_true]
      split_ifs <;> simp_all <;> omega

/-! ### Runs of the loop -/

/-- The reader holds the lines `l :: rest` of the file in KB mode: `l` in its current
buffer, the first of `rest` (or nothing) in its next buffer and the others still to
be read, and the delta read from its next buffer. -/
structure PbFileReader.Holds (r : PbFileReader) (l : List UInt8) (rest : List (List UInt8)) : Prop where
  current : r.currentLine = l
  next : r.nextLine = rest.headD []
  stream : r.fileStream = rest.tail
  mode : r.mode = .KB
  interval : r.interval = getKBTstamp (rest.headD [])

/-- The constructor's `advance` reads the first two lines of a file of text lines. -/
theorem new_holds {l : List UInt8} {rest : List (List UInt8)} (hls : ∀ x ∈ l :: rest, TextLine x) :
    (PbFileReader.new (l :: rest) .KB).Holds l rest := by
  have h₁ := fillLine_of_textLine (hls l List.mem_cons_self) rest
  have h₂ := fillLine_head fun x hx => hls x (List.mem_cons_of_mem _ hx)
  unfold PbFileReader.new PbFileReader.advance
  simp only [and_self, if_true, h₁, h₂]
  exact ⟨rfl, rfl, rfl, rfl, rfl⟩

/-- `advance` moves the next line to the current buffer and reads the line after it. -/
theorem PbFileReader.Holds.advance {r : PbFileReader} {l l' : List UInt8} {rest : List (List UInt8)}
    (hr : r.Holds l (l' :: rest)) (hls : ∀ x ∈ l :: l' :: rest, TextLine x) : r.advance.Holds l' rest := by
  have hl : l ≠ [] := (hls l List.mem_cons_self).1
  have hl' : l' ≠ [] := (hls l' (by simp)).1
  have h₂ : fillLine [] rest = (rest.headD [], rest.tail) := fillLine_head fun x hx => hls x (by simp [hx])
  have hcur : r.currentLine = l := hr.current
  have hnext : r.nextLine = l' := hr.next
  unfold PbFileReader.advance
  rw [hcur, hnext, hr.stream, hr.mode]
  simp only [List.tail_cons, hl, hl', and_false, if_false, ne_eq, not_false_eq_true, and_self, if_true, h₂]
  exact ⟨rfl, rfl, rfl, rfl, rfl⟩

/-- **The loop from a reader that holds the lines `l :: rest`.** With fuel for every
line, the loop stops, having sent the lines before the first blank one less their
newlines and read the deltas of the lines after each of them; the reader then holds
a blank current line or the last line of the file. -/
theorem sendLoop_holds (rest : List (List UInt8)) : ∀ (l : List UInt8) (r : PbFileReader) (fuel : ℕ),
    r.Holds l rest → (∀ x ∈ l :: rest, KBFileLine x) → rest.length < fuel →
    ∃ r' l' rest', sendLoop fuel r =
        (((l :: rest).takeWhile (· != [LF])).map List.dropLast,
          (rest.take ((l :: rest).takeWhile (· != [LF])).length).map getKBTstamp, r', true) ∧
      r'.Holds l' rest' ∧ l' :: rest' <:+ l :: rest ∧ (l' = [LF] ∨ rest' = []) := by
  induction rest with
  | nil =>
    intro l r fuel hr hls hfuel
    obtain ⟨fuel, rfl⟩ : ∃ f, fuel = f + 1 := ⟨fuel - 1, by simp at hfuel; omega⟩
    have hstatus : (timeoutCb r).2 = false := by
      rw [timeoutCb_snd, hr.next]
      simp
    refine ⟨r, l, [], ?_, hr, List.suffix_refl _, .inr rfl⟩
    rw [sendLoop]
    simp only [hstatus, Bool.not_false, if_true]
    rcases hls l List.mem_cons_self with ⟨delta, hl⟩ | rfl
    · -- the last line is an entry: it is sent, and the loop stops
      obtain ⟨body, rfl, hne, h0⟩ := hl.body
      have hsent : (timeoutCb r).1 = some body := by
        rw [timeoutCb_fst r (by rw [hr.current]; simp [h0, LF]), hr.current, Trade.timeoutCb_append_lf h0 hne]
      simp [hsent, LF, hne]
    · -- a blank last line: nothing is sent
      have hsent : (timeoutCb r).1 = none := by
        rw [timeoutCb_fst r (by rw [hr.current]; simp [LF]), hr.current]
        rfl
      simp [hsent]
  | cons l' rest ih =>
    intro l r fuel hr hls hfuel
    obtain ⟨fuel, rfl⟩ : ∃ f, fuel = f + 1 := ⟨fuel - 1, by simp at hfuel; omega⟩
    rcases hls l List.mem_cons_self with ⟨delta, hl⟩ | rfl
    · -- an entry with a line after it: it is sent, the delta read, and the reader advances
      obtain ⟨body, rfl, hne, h0⟩ := hl.body
      have hl' : l' ≠ [] := ((hls l' (by simp)).textLine).1
      have hstatus : (timeoutCb r).2 = true := by
        rw [timeoutCb_snd, hr.next, hr.current]
        have : 0 < body.length := List.length_pos_iff.2 hne
        simp [hl']
        omega
      have hsent : (timeoutCb r).1 = some body := by
        rw [timeoutCb_fst r (by rw [hr.current]; simp [h0, LF]), hr.current, Trade.timeoutCb_append_lf h0 hne]
      have hadv := hr.advance fun x hx => (hls x hx).textLine
      obtain ⟨r', l'', rest', hrun, hr', hsuf, hend⟩ :=
        ih l' r.advance fuel hadv (fun x hx => hls x (List.mem_cons_of_mem _ hx)) (by simp at hfuel ⊢; omega)
      have hbody : (body ++ [LF] != [LF]) = true := by simp [hne]
      refine ⟨r', l'', rest', ?_, hr', hsuf.trans (List.suffix_cons _ _), hend⟩
      rw [sendLoop]
      simp only [hstatus, Bool.not_true, Bool.false_eq_true, if_false, hsent, hrun, hr.interval,
        List.takeWhile_cons_of_pos (p := fun x => x != [LF]) hbody, List.map_cons, List.length_cons, List.take_succ_cons,
        List.headD_cons, Option.toList_some, List.singleton_append, List.dropLast_concat]
    · -- a blank line: nothing is sent and the loop stops
      have hstatus : (timeoutCb r).2 = false := by
        rw [timeoutCb_snd, hr.current]
        simp
      have hsent : (timeoutCb r).1 = none := by
        rw [timeoutCb_fst r (by rw [hr.current]; simp [LF]), hr.current]
        rfl
      refine ⟨r, [LF], l' :: rest, ?_, hr, List.suffix_refl _, .inl rfl⟩
      rw [sendLoop]
      simp [hstatus, hsent]

theorem exists_kbLine_of_forall₂ {ls : List (List UInt8)} {deltas : List ℕ}
    (h : List.Forall₂ KBLine ls deltas) : ∀ x ∈ ls, ∃ d, KBLine x d := by
  induction h with
  | nil => simp
  | cons hx _ ih =>
    intro x hmem
    rcases List.mem_cons.1 hmem with rfl | hmem
    · exact ⟨_, hx⟩
    · exact ih x hmem

theorem map_getKBTstamp {ls : List (List UInt8)} {deltas : List ℕ} (h : List.Forall₂ KBLine ls deltas) :
    ls.map getKBTstamp = deltas.map (fun d : ℕ => some (UInt64.ofInt d)) := by
  induction h with
  | nil => rfl
  | cons hx _ ih => rw [List.map_cons, List.map_cons, getKBTstamp_of_kbLine hx, ih]

/-- **Replaying a KB trade file.** On a file of entries with the deltas `deltas`,
with a firing of the timer for each line and one more, the loop sends every line
once, in order, less its newline, and stops after the last. The deltas it waits
are those of the lines after the first, as is the one the constructor reads; the
last `advance` (or the constructor, on a file of one line or none) scans the empty
next buffer past its NUL. -/
theorem kb_sender_replays {ls : List (List UInt8)} {deltas : List ℕ} (hls : List.Forall₂ KBLine ls deltas)
    {fuel : ℕ} (hfuel : ls.length < fuel) :
    ∃ r, sendLoop fuel (PbFileReader.new ls .KB) =
        (ls.map List.dropLast, (deltas.drop 1).map (fun d : ℕ => some (UInt64.ofInt d)), r, true) ∧
      (PbFileReader.new ls .KB).interval = deltas[1]?.map (fun d : ℕ => UInt64.ofInt d) ∧
      r.interval = none := by
  cases hls with
  | nil =>
    obtain ⟨fuel, rfl⟩ : ∃ f, fuel = f + 1 := ⟨fuel - 1, by simp at hfuel; omega⟩
    exact ⟨_, rfl, rfl, rfl⟩
  | @cons l delta rest ds hl hrest =>
    have hmem := exists_kbLine_of_forall₂ (.cons hl hrest)
    have hfile : ∀ x ∈ l :: rest, KBFileLine x := fun x hx => .inl (hmem x hx)
    -- no blank line: the loop runs to the end of the file
    have hnb : ∀ x ∈ l :: rest, (x != [LF]) = true := by
      intro x hx
      obtain ⟨d, hd⟩ := hmem x hx
      obtain ⟨body, rfl, hne, -⟩ := hd.body
      simp [hne]
    have hnew := new_holds fun x hx => (hfile x hx).textLine
    obtain ⟨r', l', rest', hrun, hr', hsuf, hend⟩ :=
      sendLoop_holds rest l _ fuel hnew hfile (by simp at hfuel; omega)
    rw [List.takeWhile_eq_self_iff.2 hnb, List.length_cons, List.take_of_length_le (by simp)] at hrun
    refine ⟨r', by rw [hrun, List.drop_one, List.tail_cons, map_getKBTstamp hrest], ?_, ?_⟩
    · rw [hnew.interval]
      cases hrest with
      | nil => exact getKBTstamp_nil
      | cons hx _ => exact getKBTstamp_of_kbLine hx
    · rcases hend with rfl | rfl
      · -- the reader cannot stop on a blank line: every line is an entry
        have hb := hnb _ (hsuf.subset List.mem_cons_self)
        simp at hb
      · -- the last `advance` scans the empty buffer
        rw [hr'.interval]
        exact getKBTstamp_nil

/-- A KB file of two entries, `R|5|x` and `R|7|y`. -/
def twoEntries : List (List UInt8) := [[R, BAR, 53, BAR, 120, LF], [R, BAR, 55, BAR, 121, LF]]

theorem two_entries_replayed : List.Forall₂ KBLine twoEntries [5, 7] ∧ twoEntries.length < 3 ∧
    ∃ r, sendLoop 3 (PbFileReader.new twoEntries .KB) =
        (twoEntries.map List.dropLast, ([5, 7].drop 1).map (fun d : ℕ => some (UInt64.ofInt d)), r, true) ∧
      (PbFileReader.new twoEntries .KB).interval = [5, 7][1]?.map (fun d : ℕ => UInt64.ofInt d) ∧
      r.interval = none := by
  have hls : List.Forall₂ KBLine twoEntries [5, 7] :=
    .cons ⟨[53], [120], rfl, by decide, by decide, by decide, rfl⟩
      (.cons ⟨[55], [121], rfl, by decide, by decide, by decide, rfl⟩ .nil)
  exact ⟨hls, by decide, kb_sender_replays hls (by decide)⟩

/-- **A blank line stops the sender.** On a file whose lines before the first blank
one are entries, the loop sends those lines and stops at the blank one: no line
after it is sent. The last delta it reads is that of the blank line, whose scan
runs past its NUL (`getKBTstamp_lf`). -/
theorem blank_line_stops_sender {pre post : List (List UInt8)} (hpre : ∀ x ∈ pre, ∃ d, KBLine x d)
    (hpost : ∀ x ∈ post, KBFileLine x) {fuel : ℕ} (hfuel : pre.length + post.length < fuel) :
    ∃ r, sendLoop fuel (PbFileReader.new (pre ++ [LF] :: post) .KB) =
      (pre.map List.dropLast, ((pre ++ [[LF]]).drop 1).map getKBTstamp, r, true) := by
  have hfile : ∀ x ∈ pre ++ [LF] :: post, KBFileLine x := by
    intro x hx
    rcases List.mem_append.1 hx with hx | hx
    · exact .inl (hpre x hx)
    · rcases List.mem_cons.1 hx with rfl | hx
      · exact .inr rfl
      · exact hpost x hx
  have hnb : ∀ x ∈ pre, (x != [LF]) = true := by
    intro x hx
    obtain ⟨d, hd⟩ := hpre x hx
    obtain ⟨body, rfl, hne, -⟩ := hd.body
    simp [hne]
  have htake : (pre ++ [LF] :: post).takeWhile (· != [LF]) = pre := by
    rw [List.takeWhile_append_of_pos hnb, List.takeWhile_cons_of_neg (by simp), List.append_nil]
  -- the file starts with a line: the first of `pre`, or the blank one
  obtain ⟨l, rest, hls⟩ : ∃ l rest, pre ++ [LF] :: post = l :: rest := by
    cases pre <;> exact ⟨_, _, rfl⟩
  rw [hls] at hfile htake ⊢
  have hnew := new_holds fun x hx => (hfile x hx).textLine
  have hlen : rest.length < fuel := by
    have := congrArg List.length hls
    simp at this
    omega
  obtain ⟨r', l', rest', hrun, -⟩ := sendLoop_holds rest l _ fuel hnew hfile hlen
  refine ⟨r', ?_⟩
  rw [hrun, htake]
  cases pre with
  | nil => simp_all
  | cons p pre =>
    obtain ⟨rfl, rfl⟩ := List.cons_eq_cons.1 hls
    have htk : (pre ++ [LF] :: post).take (pre.length + 1) = pre ++ [[LF]] := by
      rw [List.take_length_add_append]
      rfl
    simp [htk]

/-- The entries `R|5|x` and `R|7|y` with a blank line between them. -/
def blankBetween : List (List UInt8) := [[R, BAR, 53, BAR, 120, LF], [LF], [R, BAR, 55, BAR, 121, LF]]

/-- On `blankBetween` the loop sends `R|5|x` and stops at the blank line, whose delta
it reads past the NUL: `R|7|y` is never sent. -/
theorem blank_line_drops_entry :
    ∃ r, sendLoop 4 (PbFileReader.new blankBetween .KB) = ([[R, BAR, 53, BAR, 120]], [none], r, true) := by
  have hpre : ∀ x ∈ [[R, BAR, 53, BAR, 120, LF]], ∃ d, KBLine x d := by
    intro x hx
    rw [List.mem_singleton.1 hx]
    exact ⟨5, [53], [120], rfl, by decide, by decide, by decide, rfl⟩
  have hpost : ∀ x ∈ [[R, BAR, 55, BAR, 121, LF]], KBFileLine x := by
    intro x hx
    rw [List.mem_singleton.1 hx]
    exact .inl ⟨7, [55], [121], rfl, by decide, by decide, by decide, rfl⟩
  obtain ⟨r, hr⟩ := blank_line_stops_sender hpre hpost (show 1 + 1 < 4 by decide)
  refine ⟨r, ?_⟩
  rw [blankBetween, show [[R, BAR, 53, BAR, 120, LF], [LF], [R, BAR, 55, BAR, 121, LF]] =
    [[R, BAR, 53, BAR, 120, LF]] ++ [LF] :: [[R, BAR, 55, BAR, 121, LF]] from rfl, hr]
  -- the one delta read is the blank line's
  rw [show ([[R, BAR, 53, BAR, 120, LF]] ++ [[LF]]).drop 1 = [[LF]] from rfl, List.map_singleton (f := getKBTstamp), getKBTstamp_lf]
  rfl

end Synapse.TcpProbe
