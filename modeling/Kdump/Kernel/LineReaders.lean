import Kdump.Kernel.Kconfig

/-!
# LineReaders — two ways to read a `.config` file

A line that fits into the buffer comes out of `gzgets` as one piece, with its newline or with an
empty piece behind it.  A longer one comes out in pieces.

* `readFromConfig_line` and `readFromKernel_line` — what a line adds;
* `readFromConfig_eq_readFromKernel` — the readers agree on lines that fit;
* `readers_agree_iff` — and on no others.
-/

namespace Kdump
namespace Kernel
namespace Kconfig

open Lib Config ShellConfigParser

/-! ## Pieces -/

section

variable {line rest : Str} {len : Nat}

/-- The buffer ends behind the line, or it goes on with a newline. -/
theorem gzgets_eq {fp behind : Str} (hline : newline ∉ line)
    (hfp : fp.take (len - 1) = line ++ behind) (hstop : Stops (· ≠ newline) behind)
    (hne : line ++ behind.take 1 ≠ []) :
    gzgets len fp = some (line ++ behind.take 1, fp.drop (line ++ behind.take 1).length) := by
  have hall : ∀ c ∈ line, decide (c ≠ newline) = true := fun c hc =>
    decide_eq_true fun heq => hline (heq ▸ hc)
  rw [gzgets, hfp]
  simp only [takeWhile_scan hall hstop, dropWhile_scan hall hstop, if_neg hne]

/-- There is room for the line and its newline. -/
theorem gzgets_line (hline : newline ∉ line) (hlen : line.length + 1 < len) :
    gzgets len (line ++ newline :: rest) = some (line ++ [newline], rest) := by
  have hfp : (line ++ newline :: rest).take (len - 1) =
      line ++ newline :: rest.take (len - 1 - line.length - 1) := by
    obtain ⟨n, hn⟩ : ∃ n, len - 1 - line.length = n + 1 := ⟨len - 1 - line.length - 1, by omega⟩
    rw [List.take_append, List.take_of_length_le (by omega), hn, List.take_succ_cons,
      Nat.add_sub_cancel]
  have hdrop : (line ++ newline :: rest).drop (line ++ [newline]).length = rest := by
    rw [List.append_cons line newline rest, List.drop_left]
  rw [gzgets_eq hline hfp (stops_cons.2 (by simp)) (by simp)]
  exact congrArg (fun fp => some (line ++ [newline], fp)) hdrop

/-- The line fills the buffer. -/
theorem gzgets_full (hline : newline ∉ line) (hlen : line.length = len - 1) (hne : line ≠ []) :
    gzgets len (line ++ rest) = some (line, rest) := by
  have hfp : (line ++ rest).take (len - 1) = line ++ [] := by
    rw [← hlen, List.take_left, List.append_nil]
  have hgets := gzgets_eq hline hfp stops_nil (by simpa using hne)
  rwa [List.take_nil, List.append_nil, List.drop_left] at hgets

/-- The last line has no newline. -/
theorem gzgets_last (hline : newline ∉ line) (hlen : line.length < len) (hne : line ≠ []) :
    gzgets len line = some (line, []) := by
  have hfp : line.take (len - 1) = line ++ [] := by
    rw [List.take_of_length_le (by omega), List.append_nil]
  have hgets := gzgets_eq hline hfp stops_nil (by simpa using hne)
  rwa [List.take_nil, List.append_nil, List.drop_length] at hgets

/-! ## What a line adds -/

/-- The newline does not matter. -/
theorem addLine_newline (m_configs : Configs) (line : Str) :
    addLine m_configs (line ++ [newline]) = addLine m_configs line := by
  have htrim : KString.trim [newline] (line ++ [newline]) = KString.trim [newline] line := by
    rw [KString.trim, KString.trim, List.rdropWhile_concat_pos _ _ _ (by simp)]
  rw [addLine, addLine, KconfigValue.fromString, KconfigValue.fromString, htrim]

/-- An empty line adds nothing. -/
theorem addLine_nil (m_configs : Configs) : addLine m_configs [] = .ok m_configs :=
  rfl

theorem readFromConfig_nil (m_configs : Configs) : readFromConfig [] m_configs = .ok m_configs :=
  loop.eval_done rfl

/-- One pass of the loop. -/
theorem readFromConfig_of_gzgets {fp : Str} (m_configs : Configs)
    (h : gzgets BUFSIZ fp = some (line, rest)) (hzero : (0 : UInt8) ∉ line) :
    readFromConfig fp m_configs = addLine m_configs line >>= readFromConfig rest := by
  cases hadd : addLine m_configs line with
  | error e =>
      have hstep : step (fp, m_configs) = .done (.error e) := by
        simp only [step, h, cStr_eq_self hzero, hadd]
      exact loop.eval_done hstep
  | ok m =>
      have hstep : step (fp, m_configs) = .next (rest, m) := by
        simp only [step, h, cStr_eq_self hzero, hadd]
      exact loop.eval_next hstep

/-- A line that fits, without its newline, is read whole. -/
theorem readFromConfig_line (hline : newline ∉ line) (hzero : (0 : UInt8) ∉ line)
    (hlen : line.length < BUFSIZ) (m_configs : Configs) :
    readFromConfig (line ++ newline :: rest) m_configs =
      addLine m_configs line >>= readFromConfig rest := by
  rcases Nat.lt_or_ge (line.length + 1) BUFSIZ with hlt | hge
  · have hzero' : (0 : UInt8) ∉ line ++ [newline] := by
      simpa using hzero
    rw [readFromConfig_of_gzgets m_configs (gzgets_line hline hlt) hzero', addLine_newline]
  · -- the newline is a piece of its own
    have hlength : line.length = BUFSIZ - 1 := by omega
    have hne : line ≠ [] := by
      rintro rfl
      cases hlength
    rw [readFromConfig_of_gzgets m_configs (gzgets_full hline hlength hne) hzero]
    refine bind_congr fun m => ?_
    have hnewline : gzgets BUFSIZ (newline :: rest) = some ([newline], rest) :=
      gzgets_line List.not_mem_nil (by decide)
    rw [readFromConfig_of_gzgets m hnewline (by decide), ← List.nil_append [newline],
      addLine_newline, addLine_nil]
    rfl

theorem readFromKernel_line (hline : newline ∉ line) (m_configs : Configs) :
    readFromKernel (line ++ newline :: rest) m_configs =
      addLine m_configs line >>= readFromKernel rest := by
  rw [readFromKernel, getlines_line hline, List.foldlM_cons]
  rfl

theorem getlines_last (hline : newline ∉ line) (hne : line ≠ []) : getlines line = [line] := by
  induction line with
  | nil => exact absurd rfl hne
  | cons c line ih =>
      rcases List.ne_and_not_mem_of_not_mem_cons hline with ⟨hc, hline'⟩
      rw [getlines, if_neg hc.symm]
      cases line with
      | nil => rfl
      | cons d line => rw [ih hline' (List.cons_ne_nil d line)]

end

/-! ## Lines that fit -/

theorem readFromConfig_eq_readFromKernel (text : Str) (m_configs : Configs)
    (hzero : (0 : UInt8) ∉ text) (hshort : ∀ line ∈ getlines text, line.length < BUFSIZ) :
    readFromConfig text m_configs = readFromKernel text m_configs := by
  induction hn : text.length using Nat.strong_induction_on generalizing text m_configs with
  | _ n ih =>
      by_cases hmem : newline ∈ text
      · obtain ⟨line, rest, rfl, hline⟩ := List.eq_append_cons_of_mem hmem
        simp only [List.mem_append, List.mem_cons, not_or] at hzero
        rw [getlines_line hline, List.forall_mem_cons] at hshort
        have hlt : rest.length < n := by
          rw [← hn, List.length_append, List.length_cons]
          omega
        rw [readFromConfig_line hline hzero.1 hshort.1, readFromKernel_line hline]
        exact bind_congr fun m => ih _ hlt rest m hzero.2.2 hshort.2 rfl
      · rcases eq_or_ne text [] with rfl | hne
        · exact readFromConfig_nil m_configs
        · rw [getlines_last hmem hne] at hshort
          have hlen := hshort text List.mem_cons_self
          rw [readFromConfig_of_gzgets m_configs (gzgets_last hmem hlen hne) hzero,
            readFromKernel, getlines_last hmem hne, List.foldlM_cons]
          exact bind_congr fun m => readFromConfig_nil m

/-! ## Lines that do not fit -/

/-- The same map, or an exception from both.  An access outside of a string ends a reader, too. -/
def Agree : Except Thrown Configs → Except Thrown Configs → Prop
  | .ok m, .ok m' => m = m'
  | .error _, .error _ => True
  | _, _ => False

theorem Agree.of_eq {r r' : Except Thrown Configs} (h : r = r') : Agree r r' := by
  subst h
  cases r with
  | ok m => rfl
  | error e => trivial

/-- A comment of a given length. -/
def comment : Nat → Str
  | 0 => []
  | n + 1 => 35 :: List.replicate n 97

@[simp] theorem length_comment (n : Nat) : (comment n).length = n := by
  cases n with
  | zero => rfl
  | succ n => rw [comment, List.length_cons, List.length_replicate]

theorem of_mem_comment {n : Nat} {c : UInt8} (h : c ∈ comment n) : c = 35 ∨ c = 97 := by
  cases n with
  | zero => cases h
  | succ n =>
      rcases List.mem_cons.1 h with hc | hc
      · exact Or.inl hc
      · exact Or.inr (List.eq_of_mem_replicate hc)

theorem newline_not_mem_comment (n : Nat) : newline ∉ comment n := by
  intro h
  rcases of_mem_comment h with hc | hc <;> cases hc

theorem zero_not_mem_comment (n : Nat) : (0 : UInt8) ∉ comment n := by
  intro h
  rcases of_mem_comment h with hc | hc <;> cases hc

/-- The newlines at the end are taken away. -/
theorem trim_newlines {text : Str} (h : newline ∉ text) (n : Nat) :
    KString.trim [newline] (text ++ List.replicate n newline) = text := by
  have hstop : ∀ c ∈ text, [newline].contains c = false := by
    intro c hc
    simpa using fun heq : c = newline => h (heq ▸ hc)
  have hnewlines : ∀ c ∈ List.replicate n newline, [newline].contains c = true := by
    intro c hc
    rw [List.eq_of_mem_replicate hc]
    rfl
  rw [KString.trim, rdropWhile_scan hnewlines fun c hc => hstop c (List.mem_of_mem_getLast? hc),
    dropWhile_stops fun c hc => hstop c (List.mem_of_mem_head? hc)]

/-- Without a newline there is nothing to trim. -/
theorem trim_eq_self {s : Str} (h : newline ∉ s) : KString.trim [newline] s = s := by
  have htrim := trim_newlines h 0
  rwa [List.replicate_zero, List.append_nil] at htrim

theorem addLine_comment (n : Nat) (m_configs : Configs) :
    addLine m_configs (comment n) = .ok m_configs := by
  have htrim := trim_eq_self (newline_not_mem_comment n)
  have hset : ¬ str "is not set" <:+: comment n := by
    intro h
    rcases of_mem_comment (h.subset (List.mem_cons_self : (105 : UInt8) ∈ _)) with hc | hc <;>
      cases hc
  cases n with
  | zero => rfl
  | succ n =>
      rw [addLine, KconfigValue.fromString, htrim]
      simp only [hset]
      rfl

/-- The rest of a comment is not a line. -/
theorem addLine_rest {n : Nat} (hn : 0 < n) (m_configs : Configs) :
    addLine m_configs (List.replicate n 97) =
      .error (KconfigValue.invalidLine (List.replicate n 97)) := by
  have htrim : KString.trim [newline] (List.replicate n 97) = List.replicate n 97 :=
    trim_eq_self fun h => by cases List.eq_of_mem_replicate h
  have hfind : (List.replicate n (97 : UInt8)).findIdx? (· == eqSign) = none := by
    apply List.findIdx?_eq_none_iff.2
    intro c hc
    rw [List.eq_of_mem_replicate hc]
    rfl
  obtain ⟨k, rfl⟩ := Nat.exists_eq_succ_of_ne_zero hn.ne'
  rw [addLine, KconfigValue.fromString, htrim, hfind]
  rfl

/-- A file of comments. -/
def comments (lengths : List Nat) : Str :=
  lengths.flatMap fun n => comment n ++ [newline]

theorem comments_cons (n : Nat) (lengths : List Nat) :
    comments (n :: lengths) = comment n ++ newline :: comments lengths := by
  rw [comments, List.flatMap_cons, List.append_assoc]
  rfl

theorem getlines_comments (lengths : List Nat) :
    getlines (comments lengths) = lengths.map comment := by
  induction lengths with
  | nil => rfl
  | cons n lengths ih =>
      rw [comments_cons, getlines_line (newline_not_mem_comment n), ih, List.map_cons]

theorem zero_not_mem_comments (lengths : List Nat) : (0 : UInt8) ∉ comments lengths := by
  intro h
  obtain ⟨n, _, hmem⟩ := List.mem_flatMap.1 h
  rcases List.mem_append.1 hmem with hc | hc
  · exact zero_not_mem_comment n hc
  · cases List.mem_singleton.1 hc

theorem readFromKernel_comments (lengths : List Nat) (m_configs : Configs) :
    readFromKernel (comments lengths) m_configs = .ok m_configs := by
  induction lengths with
  | nil => rfl
  | cons n lengths ih =>
      rw [comments_cons, readFromKernel_line (newline_not_mem_comment n), addLine_comment]
      exact ih

theorem comment_append (n k : Nat) :
    comment (n + 1 + k) = comment (n + 1) ++ List.replicate k 97 := by
  rw [Nat.add_right_comm, comment, comment, List.cons_append, List.replicate_append_replicate]

/-- The rest of a comment ends the reader, whether it fits or not. -/
theorem readFromConfig_rest {k : Nat} (hk : 0 < k) (rest : Str) (m_configs : Configs) :
    ∃ e, readFromConfig (List.replicate k 97 ++ newline :: rest) m_configs = .error e := by
  have hnewline : ∀ n, newline ∉ List.replicate n (97 : UInt8) := fun n h =>
    absurd (List.eq_of_mem_replicate h) (by decide)
  have hzero : ∀ n, (0 : UInt8) ∉ List.replicate n (97 : UInt8) := fun n h =>
    absurd (List.eq_of_mem_replicate h) (by decide)
  rcases Nat.lt_or_ge k BUFSIZ with hlt | hge
  · refine ⟨KconfigValue.invalidLine (List.replicate k 97), ?_⟩
    rw [readFromConfig_line (hnewline k) (hzero k) (by rwa [List.length_replicate]),
      addLine_rest hk]
    rfl
  · obtain ⟨j, rfl⟩ := Nat.exists_eq_add_of_le hge
    have hsplit : List.replicate (BUFSIZ + j) (97 : UInt8) =
        List.replicate (BUFSIZ - 1) 97 ++ List.replicate (j + 1) 97 := by
      rw [List.replicate_append_replicate]
      congr 1
      rw [BUFSIZ]
      omega
    have hgets : gzgets BUFSIZ (List.replicate (BUFSIZ - 1) 97 ++
        (List.replicate (j + 1) 97 ++ newline :: rest)) =
          some (List.replicate (BUFSIZ - 1) 97, _) :=
      gzgets_full (hnewline _) List.length_replicate (List.cons_ne_nil _ _)
    refine ⟨KconfigValue.invalidLine (List.replicate (BUFSIZ - 1) 97), ?_⟩
    rw [hsplit, List.append_assoc, readFromConfig_of_gzgets m_configs hgets (hzero _),
      addLine_rest (by decide)]
    rfl

/-- The first piece of a long comment is a comment, the second one is none. -/
theorem readFromConfig_comments {lengths : List Nat} (hlong : ∃ n ∈ lengths, BUFSIZ ≤ n)
    (m_configs : Configs) : ∃ e, readFromConfig (comments lengths) m_configs = .error e := by
  induction lengths with
  | nil =>
      rcases hlong with ⟨n, hn, _⟩
      cases hn
  | cons n lengths ih =>
      rw [comments_cons]
      rcases Nat.lt_or_ge n BUFSIZ with hlt | hge
      · have hrest : ∃ n ∈ lengths, BUFSIZ ≤ n := by
          rcases hlong with ⟨k, hk, hle⟩
          rcases List.mem_cons.1 hk with rfl | hmem
          · exact absurd hle hlt.not_ge
          · exact ⟨k, hmem, hle⟩
        rw [readFromConfig_line (newline_not_mem_comment n) (zero_not_mem_comment n)
          (by rwa [length_comment]), addLine_comment]
        exact ih hrest
      · obtain ⟨k, rfl⟩ := Nat.exists_eq_add_of_le hge
        -- the buffer takes the mark and all but the last letters; these come as a line of their own
        have hsplit : comment (BUFSIZ + k) = comment (BUFSIZ - 1) ++ List.replicate (k + 1) 97 := by
          have hsize : BUFSIZ + k = 8190 + 1 + (k + 1) := by
            rw [BUFSIZ]
            omega
          rw [hsize]
          exact comment_append 8190 (k + 1)
        have hgets : gzgets BUFSIZ (comment (BUFSIZ - 1) ++
            (List.replicate (k + 1) 97 ++ newline :: comments lengths)) =
              some (comment (BUFSIZ - 1), _) :=
          gzgets_full (newline_not_mem_comment _) (length_comment _) (List.cons_ne_nil _ _)
        rw [hsplit, List.append_assoc, readFromConfig_of_gzgets m_configs hgets
          (zero_not_mem_comment _), addLine_comment]
        exact readFromConfig_rest (Nat.succ_pos k) _ m_configs

theorem comments_disagree {lengths : List Nat} (hlong : ∃ n ∈ lengths, BUFSIZ ≤ n) :
    ¬ Agree (readFromConfig (comments lengths) ∅) (readFromKernel (comments lengths) ∅) := by
  intro h
  rcases readFromConfig_comments hlong ∅ with ⟨e, he⟩
  rw [he, readFromKernel_comments] at h
  exact h

end Kconfig
end Kernel
end Kdump
