import DmfOs.Io.Console
import DmfOs.Lib.Binstr
import DmfOs.Lib.Printf

/-!
# Formatted printing

`printf` and its like of `printf.c` format into a buffer of 512 bytes on the stack and put
what is in it. What comes out on the line of the UART is the full output up to its first
zero byte, or up to 511 bytes, whatever other tasks print meanwhile.
-/

namespace DmfOs

open Memory

/-- A call of `printf`: the format, its arguments, and where its buffer is. -/
structure PrintfCall where
  env : PrintfEnv
  fmt : CStr
  va : Stream' Word
  buf : Word
  mem : Memory

/-- `BUFSZ`. -/
def bufSz : Word := 512

/-- The string that starts a buffer of some size. -/
def MemStr.ofBuffer (m : Memory) (buf size : Word) : MemStr where
  toCStr := .ofBuffer (m.slice buf size.toNat)
  fits := by
    refine (List.takeWhile_prefix _).length_le.trans_lt ?_
    rw [slice, List.length_map, List.length_range]
    exact size.isLt

theorem MemStr.bytes_ofBuffer (m : Memory) (buf size : Word) :
    (MemStr.ofBuffer m buf size).bytes = (m.slice buf size.toNat).takeWhile (· ≠ 0) := rfl

namespace PrintfCall

variable {p : PrintfCall}

/-- The body that the functions share: what they return, and the string that they put. -/
def print (p : PrintfCall) : Word × MemStr :=
  let (r, m) := vsnprintf p.env p.buf bufSz p.fmt p.va p.mem
  (r, .ofBuffer m p.buf bufSz)

/-- `vprintf`. -/
def vprintf (p : PrintfCall) : Word × MemStr := p.print

/-- `printf`. -/
def printf (p : PrintfCall) : Word × MemStr := p.print

/-- `warning`. -/
def warning (p : PrintfCall) : Word × MemStr := p.print

/-- `error`. -/
def error (p : PrintfCall) : Word × MemStr := p.print

/-- What a call formats. -/
def output (p : PrintfCall) : List Byte := fullOutput p.env p.fmt p.va

/-- What of it comes out. -/
def text (p : PrintfCall) : List Byte := (p.output.take 511).takeWhile (· ≠ 0)

/-- The buffer begins with as much of the output as fits, and a zero. -/
theorem slice_truncated {out : List Byte} {buf : Word} {m m' : Memory}
    (h : Truncated out buf bufSz m m') :
    ∃ rest, m'.slice buf bufSz.toNat = out.take 511 ++ 0 :: rest := by
  have hsize : bufSz.toNat = 512 := rfl
  have hterm := h.terminated
  have hbytes := h.bytes
  rw [hsize] at hterm hbytes ⊢
  generalize hk : min out.length 511 = k at hterm
  have hlen : (m'.slice buf 512).length = 512 := by simp [slice]
  have hfirst : (m'.slice buf 512).take k = out.take 511 := by
    refine List.ext_getElem (by simp [hlen]; omega) fun i hi hi' => ?_
    rw [List.getElem_take, List.getElem_take,
      ← hbytes i (by simp at hi'; omega) (by simp at hi'; omega)]
    simp [slice]
  refine ⟨(m'.slice buf 512).drop (k + 1), ?_⟩
  have hzero : (m'.slice buf 512)[k] = 0 := by
    simpa [slice] using hterm
  rw [← hfirst, ← hzero, ← List.drop_eq_getElem_cons, List.take_append_drop]

/-- The string is the text, and the length of the full output is returned. -/
theorem print_eq (p : PrintfCall) :
    p.print.2.bytes = p.text ∧ p.print.1 = .ofNat 32 p.output.length := by
  refine ⟨?_, vsnprintf_fst ..⟩
  have hsize : bufSz ≠ 0 := by decide
  have htrunc := truncated_vsnprintf p.env p.fmt p.va p.buf p.mem hsize
  obtain ⟨rest, hrest⟩ := slice_truncated htrunc
  rw [print, MemStr.bytes_ofBuffer, hrest, text, output]
  generalize (fullOutput p.env p.fmt p.va).take 511 = cs
  induction cs with
  | nil => rfl
  | cons c cs ih => rw [List.cons_append, List.takeWhile_cons, List.takeWhile_cons, ih]

/-! ## Calls of many tasks -/

variable {ι : Type*} [DecidableEq ι] {ts : List (LockTurn ι)} {u : Uart} {d : Screen}
  {calls : ι → List PrintfCall}
  {w : LockWorld ι 32 PrintfCall ConsoleCmd ConsoleLocals Console}

/-- The code of a call behind its formatting, which is on the stack of the task. -/
def enter (p : PrintfCall) : List ConsoleCmd × ConsoleLocals := Console.enter p.printf.2

/-- Whenever nobody is inside `puts`, the UART got the texts of the calls so far, in the
order in which they took the lock, which keeps the order of each task; the screen shows the
same strings; and each call returns the length of its full output. -/
theorem printf_prints (u : Uart) (d : Screen) (calls : ι → List PrintfCall)
    (h : Reach (LockWorld.Turns Console.machine enter)
      (LockWorld.initial calls (Console.start u d) :
        LockWorld ι 32 PrintfCall ConsoleCmd ConsoleLocals Console) ts w)
    (hidle : w.v = 0) :
    (∀ i, (w.log.filter (·.1 = i)).map Prod.snd ++ w.todo i = calls i) ∧
      Uart.Carries u (w.log.flatMap fun l => Console.crlf l.2.text) w.shared.uart ∧
      w.shared.screen = Console.shown d (w.log.map fun l => l.2.printf.2) ∧
      ∀ l ∈ w.log, l.2.printf.1 = .ofNat 32 l.2.output.length := by
  have hsound := LockWorld.sound_reach (by decide) h
  have hprinted := (Console.holds_of_puts (f := fun p : PrintfCall => p.printf.2) hsound).1
    (hsound.nobody hidle)
  refine ⟨hsound.order, ?_, ?_, fun l _ => l.2.print_eq.2⟩
  · have htext (p : PrintfCall) : p.printf.2.bytes = p.text := p.print_eq.1
    have hsent := hprinted.sent
    rw [Console.lineText, List.map_map, List.flatMap_map] at hsent
    simp only [Function.comp_apply, htext] at hsent
    exact hsent
  · have hscreen := hprinted.screen
    rwa [List.map_map] at hscreen

/-- A call with the format a%c. -/
def charCall : PrintfCall := ⟨emptyEnv, charFmt, Stream'.const 98, 0x1000, ⟨fun _ => 0, []⟩⟩

/-- Two tasks make this call; one of them gets to its end, and its text is on the line. -/
theorem printf_prints_charCall : ∃ (ts : List (LockTurn Bool))
    (w : LockWorld Bool 32 PrintfCall ConsoleCmd ConsoleLocals Console),
    Reach (LockWorld.Turns Console.machine enter)
      (LockWorld.initial (fun _ => [charCall])
        (Console.start Console.busyUart Console.emptyScreen)) ts w ∧ w.todo true = [] ∧
      Uart.Carries Console.busyUart (w.log.flatMap fun l => Console.crlf l.2.text)
        w.shared.uart := by
  have hsound : LockWorld.Sound Console.machine enter (fun _ => [charCall])
      (Console.start Console.busyUart Console.emptyScreen)
      (LockWorld.initial _ _ : LockWorld Bool 32 PrintfCall ConsoleCmd ConsoleLocals Console) :=
    LockWorld.sound_initial ..
  obtain ⟨ts, w, hr, hv, htodo⟩ := hsound.exists_finished (by decide) Console.ends_all true
  exact ⟨ts, w, hr, htodo, (printf_prints _ _ _ hr hv).2.1⟩

/-! ## Binary digits -/

/-- The format of `print_binstr`. -/
def strFmt : CStr := ⟨[chr '%', chr 's'], by decide⟩

/-- The call of `printf` that `print_binstr` makes, with its array at `out`. -/
def printBinstr (x out buf : Word) (env : PrintfEnv) (m : Memory) : PrintfCall where
  env := { env with str := fun a =>
    if a = out then .ofBuffer ((binstr x out m).slice out binstrSz) else env.str a }
  fmt := strFmt
  va := Stream'.const out
  buf := buf
  mem := binstr x out m

/-- The format prints the string that its argument points to. -/
theorem fullOutput_strFmt (env : PrintfEnv) (a : Word) :
    fullOutput env strFmt (Stream'.const a) = (env.str a).bytes := by
  have hconv : moreFmt [chr 's'] 0 noProps = ⟨chr 's', 0, noProps, []⟩ := by
    rw [moreFmt]
    decide
  have htext : (⟨chr 's', 0, noProps, []⟩ : Directive).text env (Stream'.const a) =
      (env.str a).bytes := by
    have hhead : (Stream'.const a).head = a := rfl
    simp [Directive.text, chr, strText, padBefore, padAfter, noProps, hhead]
  have hpercent : ¬chr '%' ≠ chr '%' := not_not.mpr rfl
  rw [fullOutput, strFmt, vsnprintfLoop, if_neg hpercent]
  dsimp only
  rw [hconv, convert_eq, htext]
  dsimp only
  rw [vsnprintfLoop, (foldl_addchar_count _ _).1, List.nil_append]

/-- `print_binstr` fills its array of 40 bytes and nothing around it, and puts the 32 digits
of its argument in groups of four with a mark between any two. The number that the string
denotes is the argument, and 39 is returned. -/
theorem printBinstr_puts (x out buf : Word) (env : PrintfEnv) (m : Memory) :
    WritesIn (span out binstrSz) m (printBinstr x out buf env m).mem ∧
      (printBinstr x out buf env m).printf.2.bytes =
        [mark].intercalate ((List.range 8).reverse.map (binGroup x)) ∧
      readBits 0 (printBinstr x out buf env m).printf.2.bytes = x.toNat ∧
      (printBinstr x out buf env m).printf.1 = 39 := by
  obtain ⟨hwrites, hslice⟩ := slice_binstr x out m
  have hlen : (binText x 32).length = 39 := length_binText x 31
  have hout : (printBinstr x out buf env m).output = binText x 32 := by
    have hstr : (printBinstr x out buf env m).output = (binText x 32 ++ [0]).takeWhile (· ≠ 0) := by
      rw [output, printBinstr, fullOutput_strFmt]
      dsimp only
      rw [if_pos rfl, CStr.ofBuffer, hslice]
    rw [hstr, List.takeWhile_append_of_pos (by simpa using binText_nonzero x 32)]
    simp
  obtain ⟨hbytes, hret⟩ := (printBinstr x out buf env m).print_eq
  have htext : (printBinstr x out buf env m).printf.2.bytes = binText x 32 := by
    rw [printf, hbytes, text, hout, List.take_of_length_le (by omega)]
    exact List.takeWhile_eq_self_iff.mpr (by simpa using binText_nonzero x 32)
  refine ⟨hwrites, htext.trans (binText_eq_intercalate x 8), ?_, ?_⟩
  · rw [htext, readBits_binText, Nat.zero_mul, Nat.zero_add, Nat.mod_eq_of_lt x.isLt]
  · rw [printf, hret, hout, hlen]
    rfl

end PrintfCall

end DmfOs
