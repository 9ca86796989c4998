import Kdump.Files.Listing

/-!
# Retention — which dumps `delete_one` leaves

* `Retains` — the dumps with the greatest names remain, and nothing else has changed;
* `deleteAll_spec`, `copied` — the loop over the dumps, and how many of them it is given;
* `Timestamp` — names that are dates;
* `delete_one_retains_iff` — when the right dumps remain;
* `delete_one_inside_iff` — when only names of the listing are read.
-/

namespace Kdump
namespace Files

open Lib Kdump.Path Kdump.Mount

/-! ## Deleting -/

/-- The directories `items` are gone, with everything in them, and nothing else is. -/
structure Deleted (items : List FileName) (pos : List FileName) (T T' : Node) : Prop where
  gone : ∀ c ∈ items, T'.kindAt (pos ++ [c]) = none
  others : ∀ q, (∀ c ∈ items, ¬ pos ++ [c] <+: q) → T'.kindAt q = T.kindAt q

/-- One of the directories `items` is still there, and nothing else is gone. -/
structure Stuck (items : List FileName) (pos : List FileName) (T T' : Node) : Prop where
  left : ∃ c ∈ items, T'.kindAt (pos ++ [c]) = some .dir
  others : ∀ q, (∀ c ∈ items, ¬ pos ++ [c] <+: q) → T'.kindAt q = T.kindAt q

theorem not_prefix_sibling {pos : List FileName} {c d : FileName} (h : c ≠ d) :
    ¬ pos ++ [c] <+: pos ++ [d] := by
  rintro ⟨rest, hrest⟩
  rw [List.append_assoc] at hrest
  exact h (List.cons.inj (List.append_cancel_left hrest)).1

section

variable {env : Env} {unknown : List FileName → Bool} {fds : Nat}
variable {dir : Str} {pos : List FileName} {s : State}

/-- The rest of the loop, after the first dump has been removed. -/
theorem Deleted.cons {c : FileName} {items : List FileName} {T T₁ T' : Node} (hnew : c ∉ items)
    (hunder : Under (pos ++ [c]) T T₁) (hnone : T₁.kindAt (pos ++ [c]) = none)
    (h : Deleted items pos T₁ T') : Deleted (c :: items) pos T T' where
  gone d hd := by
    rcases List.mem_cons.1 hd with rfl | hd
    · have hother : ∀ e ∈ items, ¬ pos ++ [e] <+: pos ++ [d] :=
        fun e he => not_prefix_sibling fun heq => hnew (heq ▸ he)
      exact (h.others _ hother).trans hnone
    · exact h.gone d hd
  others q hq := by
    have hrest := h.others q fun d hd => hq d (List.mem_cons_of_mem c hd)
    by_contra hne
    exact hq c List.mem_cons_self (hunder.only q fun heq => hne (hrest.trans heq))

theorem Stuck.cons {c : FileName} {items : List FileName} {T T₁ T' : Node}
    (hunder : Under (pos ++ [c]) T T₁) (h : Stuck items pos T₁ T') :
    Stuck (c :: items) pos T T' where
  left := by
    obtain ⟨d, hd, hdir⟩ := h.left
    exact ⟨d, List.mem_cons_of_mem c hd, hdir⟩
  others q hq := by
    have hrest := h.others q fun d hd => hq d (List.mem_cons_of_mem c hd)
    by_contra hne
    exact hq c List.mem_cons_self (hunder.only q fun heq => hne (hrest.trans heq))

/-- The loop removes all the dumps it is given, or it fails at one that is not safe. -/
theorem deleteAll_spec (fds : Nat) (henv : env.Reports unknown) {items : List FileName}
    (h : Reaches s.tree dir pos) (hnodup : items.Nodup)
    (hdirs : ∀ c ∈ items, s.tree.kindAt (pos ++ [c]) = some .dir) :
    wp (deleteAll env fds false dir (items.map Subtype.val))
      (fun _ s' => (∀ c ∈ items, Safe s.tree unknown (pos ++ [c])) ∧
        Deleted items pos s.tree s'.tree)
      (fun _ s' => Stuck items pos s.tree s'.tree) s := by
  induction items generalizing s with
  | nil => exact ⟨List.forall_mem_nil _, List.forall_mem_nil _, fun _ _ => rfl⟩
  | cons c items ih =>
      have hleads : Leads s.tree (appendPath dir c.1) pos c :=
        h.entry (hdirs c List.mem_cons_self)
      obtain ⟨hnew, hnodup⟩ := List.nodup_cons.1 hnodup
      rw [List.map_cons, deleteAll, if_neg Bool.false_ne_true, wp_bind]
      unfold wp
      -- a failed call leaves its directory there; a successful one does not touch the other dumps
      cases hrun : rmdir env fds (appendPath dir c.1) true s with
      | error e s₁ =>
          have hinside := rmdir_failed henv hleads hrun
          refine ⟨⟨c, List.mem_cons_self, hinside.kindAt.trans hleads.dir⟩, fun q hq => ?_⟩
          by_contra hne
          exact hq c List.mem_cons_self (hinside.only q hne).1
      | ok a s₁ =>
          obtain ⟨hsafe, hunder, hnone⟩ :=
            (rmdir_removes henv fds).sound _ _ _ _ _ hleads hrun
          have hsibling {d : FileName} (hd : d ∈ items) (q : List FileName) :
              s₁.tree.kindAt (pos ++ [d] ++ q) = s.tree.kindAt (pos ++ [d] ++ q) :=
            hunder.sibling (fun heq => hnew (heq ▸ hd)) q
          have hdirs₁ : ∀ d ∈ items, s₁.tree.kindAt (pos ++ [d]) = some .dir := by
            intro d hd
            have hself := hsibling hd []
            rw [List.append_nil] at hself
            exact hself.trans (hdirs d (List.mem_cons_of_mem c hd))
          refine wp_mono (ih (h.inside hunder.inside) hnodup hdirs₁) ?_ ?_
          · rintro _ s' ⟨hrest, hdeleted⟩
            refine ⟨fun d hd => ?_, hdeleted.cons hnew hunder hnone⟩
            rcases List.mem_cons.1 hd with rfl | hd
            · exact hsafe
            · exact (hrest d hd).congr (hsibling hd)
          · intro _ s' hstuck
            exact hstuck.cons hunder

theorem deleteAll_complete (henv : env.Reports unknown) {items : List FileName}
    (h : Reaches s.tree dir pos) (hnodup : items.Nodup)
    (hdirs : ∀ c ∈ items, s.tree.kindAt (pos ++ [c]) = some .dir)
    (hdepth : ∀ c ∈ items, DepthLt s.tree (pos ++ [c]) fds)
    (hsafe : ∀ c ∈ items, Safe s.tree unknown (pos ++ [c])) :
    ∃ s', deleteAll env fds false dir (items.map Subtype.val) s = .ok () s' := by
  induction items generalizing s with
  | nil => exact ⟨s, rfl⟩
  | cons c items ih =>
      have hleads : Leads s.tree (appendPath dir c.1) pos c :=
        h.entry (hdirs c List.mem_cons_self)
      obtain ⟨hnew, hnodup⟩ := List.nodup_cons.1 hnodup
      obtain ⟨s₁, hrun⟩ := (rmdir_removes henv fds).complete _ _ _ _ hleads
        (hdepth c List.mem_cons_self) (hsafe c List.mem_cons_self)
      obtain ⟨-, hunder, -⟩ := (rmdir_removes henv fds).sound _ _ _ _ _ hleads hrun
      have hdirs₁ : ∀ d ∈ items, s₁.tree.kindAt (pos ++ [d]) = some .dir := by
        intro d hd
        have hself := hunder.sibling (fun heq => hnew (heq ▸ hd)) []
        rw [List.append_nil] at hself
        exact hself.trans (hdirs d (List.mem_cons_of_mem c hd))
      obtain ⟨s', hrest⟩ := ih (h.inside hunder.inside) hnodup hdirs₁
        (fun d hd => (hdepth d (List.mem_cons_of_mem c hd)).mono hunder.le)
        (fun d hd => (hsafe d (List.mem_cons_of_mem c hd)).mono hunder.le)
      refine ⟨s', ?_⟩
      rw [List.map_cons, deleteAll, if_neg Bool.false_ne_true, bind_ok hrun]
      exact hrest

end

/-! ## How many dumps are deleted -/

/-- The number of dumps to keep. -/
def keepCount (oldDumps : Int32) : Nat :=
  if oldDumps = -1 then 0 else oldDumps.toInt.toNat

/-- What `delete_one` passes to the loop. -/
def toDelete (oldDumps : Int32) (contents : List Str) : Except Thrown (List Str) :=
  match deleteItems oldDumps contents.length with
  | none => .ok []
  | some n => copyN contents n

theorem copyN_ok {contents : List Str} {n : Int32} {m : Nat} (hm : n.toInt.toNat = m)
    (hle : m ≤ contents.length) : copyN contents n = .ok (contents.take m) := by
  rw [copyN, hm, if_pos hle]

/-- The dumps at the front are deleted: all but the number to keep, if their number is an `int`;
otherwise fewer. -/
theorem toDelete_eq {oldDumps : Int32} (hn : -1 ≤ oldDumps) (hn0 : oldDumps ≠ 0)
    (contents : List Str) :
    ∃ m, toDelete oldDumps contents = .ok (contents.take m) ∧
      m ≤ contents.length - keepCount oldDumps ∧
      (m = contents.length - keepCount oldDumps ↔ contents.length < 2 ^ 31) := by
  have hsize : Int32.size = 2 ^ 32 := rfl
  have hlt := oldDumps.toInt_lt
  have hwrap : (Int32.ofNat contents.length).toInt = (contents.length : Int).bmod (2 ^ 32) :=
    Int32.toInt_ofNat'
  have hbmod := Int.bmod_def (contents.length : Int) (2 ^ 32)
  rw [Int32.le_iff_toInt_le] at hn
  have hminus : (-1 : Int32).toInt = -1 := rfl
  have hzero : oldDumps.toInt ≠ 0 := fun h => hn0 (Int32.toInt_inj.1 h)
  unfold toDelete deleteItems keepCount
  by_cases hall : oldDumps = -1
  · -- every dump goes, and a count that wraps deletes fewer
    rw [if_pos hall, if_pos hall]
    refine ⟨_, copyN_ok rfl ?_, ?_, ?_⟩ <;> rw [hwrap] <;> omega
  · rw [if_neg hall, if_neg hall]
    have hpos : 0 < oldDumps.toInt := by
      have hne : oldDumps.toInt ≠ -1 := fun h => hall (Int32.toInt_inj.1 (h.trans hminus.symm))
      omega
    by_cases hfew : oldDumps > Int32.ofNat contents.length
    · rw [if_pos hfew]
      rw [gt_iff_lt, Int32.lt_iff_toInt_lt, hwrap] at hfew
      refine ⟨0, by rw [List.take_zero], Nat.zero_le _, ?_⟩
      omega
    · rw [if_neg hfew]
      rw [gt_iff_lt, Int32.lt_iff_toInt_lt, hwrap] at hfew
      -- the number to keep is positive and not above the count: nothing wraps again
      have hsub : (Int32.ofNat contents.length - oldDumps).toInt =
          (contents.length : Int).bmod (2 ^ 32) - oldDumps.toInt := by
        rw [Int32.toInt_sub, hwrap]
        refine Int.bmod_eq_of_le ?_ ?_ <;> omega
      refine ⟨_, copyN_ok rfl ?_, ?_, ?_⟩ <;> rw [hsub] <;> omega

/-! ## Names that are dates -/

/-- A broken-down time with a year of four digits. -/
structure Timestamp where
  year : Nat
  month : Nat
  day : Nat
  hour : Nat
  minute : Nat
  year_ok : 1000 ≤ year ∧ year < 10000
  month_ok : 1 ≤ month ∧ month ≤ 12
  day_ok : 1 ≤ day ∧ day ≤ 31
  hour_ok : hour < 24
  minute_ok : minute < 60

/-- What decides the calendar order, the most significant number first. -/
def Timestamp.calendar (t : Timestamp) : List Nat :=
  [t.year, t.month, t.day, t.hour, t.minute]

def asciiDigit (i : Nat) : UInt8 :=
  UInt8.ofNat (48 + i)

/-- `StringUtil::formatUnixTime` with `ISO_DATETIME`, that is `%Y-%m-%d-%H:%M`. -/
def isoDatetime (t : Timestamp) : Str :=
  digits 10 asciiDigit 4 t.year ++ (str "-" ++ (digits 10 asciiDigit 2 t.month ++
    (str "-" ++ (digits 10 asciiDigit 2 t.day ++ (str "-" ++ (digits 10 asciiDigit 2 t.hour ++
      (str ":" ++ digits 10 asciiDigit 2 t.minute)))))))

example : isoDatetime ⟨2024, 2, 29, 7, 5, by decide, by decide, by decide, by decide, by decide⟩ =
    str "2024-02-29-07:05" := by decide

theorem asciiDigit_lt (i j : Nat) (hij : i < j) (hj : j < 10) :
    (UInt8.toNat ∘ asciiDigit) i < (UInt8.toNat ∘ asciiDigit) j := by
  simp only [Function.comp_apply, asciiDigit, UInt8.toNat_ofNat']
  omega

/-- A number of a fixed width, and what follows it. -/
theorem bytesOf_digits_lt_iff {w n m : Nat} (hn : n < 10 ^ w) (hm : m < 10 ^ w) (a b : Str) :
    bytesOf (digits 10 asciiDigit w n ++ a) < bytesOf (digits 10 asciiDigit w m ++ b) ↔
      n < m ∨ n = m ∧ bytesOf a < bytesOf b := by
  unfold bytesOf
  rw [List.map_append, List.map_append, map_digits, map_digits, append_lt_append_iff (by simp),
    digits_lt_digits_iff asciiDigit_lt hn hm, digits_inj asciiDigit_lt hn hm]

theorem bytesOf_append_lt_iff (sep a b : Str) :
    bytesOf (sep ++ a) < bytesOf (sep ++ b) ↔ bytesOf a < bytesOf b := by
  unfold bytesOf
  rw [List.map_append, List.map_append, append_lt_append_iff rfl]
  simp

/-- The order of these names is the order of the dates. -/
theorem bytesOf_isoDatetime_lt_iff (t t' : Timestamp) :
    bytesOf (isoDatetime t) < bytesOf (isoDatetime t') ↔ t.calendar < t'.calendar := by
  have hlast : bytesOf (digits 10 asciiDigit 2 t.minute) <
      bytesOf (digits 10 asciiDigit 2 t'.minute) ↔ t.minute < t'.minute := by
    have h := bytesOf_digits_lt_iff (w := 2) (t.minute_ok.trans (by decide))
      (t'.minute_ok.trans (by decide)) [] []
    simpa using h
  have hmonth := t.month_ok.2
  have hmonth' := t'.month_ok.2
  have hday := t.day_ok.2
  have hday' := t'.day_ok.2
  unfold isoDatetime Timestamp.calendar
  rw [bytesOf_digits_lt_iff (w := 4) t.year_ok.2 t'.year_ok.2, bytesOf_append_lt_iff,
    bytesOf_digits_lt_iff (w := 2) (by omega) (by omega), bytesOf_append_lt_iff,
    bytesOf_digits_lt_iff (w := 2) (by omega) (by omega), bytesOf_append_lt_iff,
    bytesOf_digits_lt_iff (w := 2) (t.hour_ok.trans (by decide)) (t'.hour_ok.trans (by decide)),
    bytesOf_append_lt_iff, hlast]
  simp only [List.cons_lt_cons_iff, List.lt_irrefl, and_false, or_false]

/-! ## What is left -/

/-- The dumps `kept` remain, which are the `k` ones with the greatest names, nothing else has
changed, and if the names are dates, they are the latest ones. -/
structure Retains (k : Nat) (pos : List FileName) (kept : Finset FileName) (T T' : Node) :
    Prop where
  greatest : Greatest (fun c => bytesOf c.1) k (kdumpDirs T pos) kept
  remain : ∀ c ∈ kdumpDirs T pos, T'.kindAt (pos ++ [c]) ≠ none ↔ c ∈ kept
  untouched : ∀ q, (∀ c ∈ kdumpDirs T pos, c ∉ kept → ¬ pos ++ [c] <+: q) →
    T'.kindAt q = T.kindAt q
  latest : ∀ date : FileName → Timestamp, (∀ c ∈ kdumpDirs T pos, c.1 = isoDatetime (date c)) →
    Greatest (fun c => (date c).calendar) k (kdumpDirs T pos) kept

theorem latest_of_greatest {k : Nat} {dumps kept : Finset FileName}
    (h : Greatest (fun c => bytesOf c.1) k dumps kept) {date : FileName → Timestamp}
    (hdate : ∀ c ∈ dumps, c.1 = isoDatetime (date c)) :
    Greatest (fun c => (date c).calendar) k dumps kept := by
  refine h.congr_key fun a ha b hb hlt => ?_
  rw [hdate a ha, hdate b hb] at hlt
  exact (bytesOf_isoDatetime_lt_iff _ _).1 hlt

/-! ## Dry runs -/

section

variable {env : Env} {T : Node}

theorem keeps_orThrow {α : Type} {message : Str} {call : SysCall α} {I : State → Prop}
    (h : Keeps call I) : Keeps (orThrow message call) I :=
  fun s hs => wp_orThrow.2 (h s hs)

theorem keeps_succeeds {α : Type} {p : α → Bool} {call : SysCall α} {I : State → Prop}
    (h : Keeps call I) : Keeps (succeeds p call) I := by
  intro s hs
  have hcall := h s hs
  unfold wp succeeds
  unfold wp at hcall
  cases hrun : call s with
  | ok a s' =>
      rw [hrun] at hcall
      exact hcall
  | error errno s' =>
      rw [hrun] at hcall
      exact hcall

theorem keeps_resolve (start : List FileName) (comps : List Str) :
    Keeps (resolve env start comps) fun s => s.tree = T :=
  fun _ hs => wp_mono (wp_resolve start comps) (fun _ _ h => h.2.1.trans hs)
    (fun _ _ h => h.1.trans hs)

theorem keeps_opendir (path : Str) : Keeps (opendir env path) fun s => s.tree = T := by
  unfold opendir
  split
  · exact .throw _
  · refine .bind (keeps_resolve _ _) fun pos => .bind .get fun s => ?_
    split
    · exact .pure _
    · exact .throw _

theorem keeps_fstatatNofollow (dirfd : List FileName) (name : Str) :
    Keeps (fstatatNofollow env dirfd name) fun s => s.tree = T := by
  intro s hs
  unfold wp fstatatNofollow
  cases env.refuse s.calls with
  | some errno => exact hs
  | none =>
      cases henter : s.tree.enter dirfd name with
      | error errno => exact hs
      | ok next =>
          cases hget : s.tree.get? next with
          | none => simpa only [henter, hget] using hs
          | some node => simpa only [henter, hget] using hs

theorem keeps_test (dirfd : List FileName) (d : Dirent) :
    Keeps (FilterKdumpDirs.test env dirfd d) fun s => s.tree = T := by
  have hdirs : Keeps (FilterDotsAndNondirs.test env dirfd d) fun s => s.tree = T := by
    unfold FilterDotsAndNondirs.test
    split
    · exact .pure _
    · split
      · exact .pure _
      · split
        · exact .pure _
        · exact keeps_succeeds (keeps_fstatatNofollow _ _)
  refine .bind hdirs fun isDir => ?_
  split
  · exact keeps_succeeds (.bind (keeps_resolve _ _) fun _ => .pure _)
  · exact .pure _

theorem keeps_listDir (fds : Nat) (path : Str) :
    Keeps (listDir env (FilterKdumpDirs.test env) fds path) fun s => s.tree = T := by
  have hfilter : ∀ (dirfd : List FileName) (entries : List Dirent),
      Keeps (filterEntries (FilterKdumpDirs.test env dirfd) entries) fun s => s.tree = T := by
    intro dirfd entries
    induction entries with
    | nil => exact .pure _
    | cons d rest ih => exact .bind (keeps_test dirfd d) fun _ => .bind ih fun _ => .pure _
  cases fds with
  | zero => exact .throw _
  | succ fds =>
      refine .bind (keeps_orThrow (keeps_opendir _)) fun dirp => .bind (hfilter _ _) fun v => ?_
      split
      · exact .throw _
      · exact .pure _

/-- A dry run changes nothing, whatever the system does. -/
theorem delete_one_dryRun (env : Env) (fds : Nat) (url : RootDirURL) (oldDumps : Int32)
    (s : State) : (endState (delete_one env fds true url oldDumps s)).tree = s.tree := by
  have hdelete : ∀ dir items,
      Keeps (deleteAll env fds true dir items) fun t => t.tree = s.tree := by
    intro dir items
    induction items with
    | nil => exact .pure _
    | cons item items ih =>
        rw [deleteAll, if_pos rfl]
        exact .bind (.pure ()) fun _ => ih
  have hkeeps : Keeps (delete_one env fds true url oldDumps) fun t => t.tree = s.tree := by
    unfold delete_one
    split
    · exact .pure _
    · refine .bind ?_ fun found => ?_
      · unfold pathExists
        split
        · exact .pure _
        · exact keeps_succeeds (keeps_resolve _ _)
      · split
        · refine .bind (keeps_listDir _ _) fun contents => ?_
          split
          · exact .pure _
          · split
            · exact .throw _
            · exact hdelete _ _
        · exact .pure _
  exact wp_endState.1 (hkeeps s rfl)

end

theorem nodup_of_sorted {dumps : List FileName}
    (h : dumps.Pairwise fun a b => bytesOf a.1 < bytesOf b.1) : dumps.Nodup :=
  h.imp fun hab heq => absurd (congrArg (bytesOf ·.1) heq) hab.ne

/-! ## The condition -/

section

variable {env : Env} {unknown : List FileName → Bool} {fds : Nat} {url : RootDirURL}
variable {oldDumps : Int32} {pos : List FileName} {s : State}

/-- `delete_one` gets as far as the listing of a directory. -/
structure Lists (env : Env) (fds : Nat) (url : RootDirURL) (s : State) (contents : List Str)
    (s' : State) : Prop where
  isFile : url.m_protocol = .PROT_FILE
  listed : ∃ s₁, pathExists env url.getRealPath s = .ok true s₁ ∧
    listDir env (FilterKdumpDirs.test env) fds url.getRealPath s₁ = .ok contents s'

/-- Behind the listing. -/
theorem delete_one_of_lists {m_dryRun : Bool} {s' : State} {contents : List Str}
    (h : Lists env fds url s contents s') (oldDumps : Int32) :
    delete_one env fds m_dryRun url oldDumps s =
      match deleteItems oldDumps contents.length with
      | none => .ok () s'
      | some n =>
          match copyN contents n with
          | .error e => .error e s'
          | .ok toDelete => deleteAll env fds m_dryRun url.getRealPath toDelete s' := by
  obtain ⟨s₁, hexists, hlist⟩ := h.listed
  unfold delete_one
  rw [if_neg (not_not.2 h.isFile), bind_ok hexists, if_pos rfl, bind_ok hlist]
  cases deleteItems oldDumps contents.length with
  | none => rfl
  | some n =>
      dsimp only
      cases copyN contents n <;> rfl

theorem exists_lists (henv : env.Reports unknown) (hfile : url.m_protocol = .PROT_FILE)
    (h : Reaches s.tree url.getRealPath pos) (hfds : 0 < fds) :
    ∃ (s₁ : State) (dumps : List FileName), Lists env fds url s (dumps.map Subtype.val) s₁ ∧
      s₁.tree = s.tree ∧ dumps.toFinset = kdumpDirs s.tree pos ∧
      dumps.Pairwise fun a b => bytesOf a.1 < bytesOf b.1 := by
  obtain ⟨s₀, hresolve, htree₀⟩ := resolve_ok henv h.walk_splitPath
  have hexists : pathExists env url.getRealPath s = .ok true s₀ := by
    rw [pathExists, h.noNul, if_neg h.ne_nil]
    exact succeeds_ok hresolve
  rw [← htree₀] at h ⊢
  obtain ⟨s₁, dumps, hlist, htree₁, hdumps, hsorted⟩ := listDir_ok henv h hfds
  exact ⟨s₁, dumps, ⟨hfile, s₀, hexists, hlist⟩, htree₁, hdumps, hsorted⟩

/-- `delete_one` lists the dumps and deletes some of them. -/
theorem delete_one_eq (oldDumps : Int32) (henv : env.Reports unknown)
    (hfile : url.m_protocol = .PROT_FILE) (h : Reaches s.tree url.getRealPath pos)
    (hfds : 0 < fds) :
    ∃ (s₁ : State) (dumps : List FileName), s₁.tree = s.tree ∧
      dumps.toFinset = kdumpDirs s.tree pos ∧
      (dumps.Pairwise fun a b => bytesOf a.1 < bytesOf b.1) ∧
      ∀ items, toDelete oldDumps (dumps.map Subtype.val) = .ok items →
        delete_one env fds false url oldDumps s =
          deleteAll env fds false url.getRealPath items s₁ := by
  obtain ⟨s₁, dumps, hlists, htree₁, hdumps, hsorted⟩ := exists_lists henv hfile h hfds
  refine ⟨s₁, dumps, htree₁, hdumps, hsorted, fun items hitems => ?_⟩
  rw [delete_one_of_lists hlists]
  unfold toDelete at hitems
  cases hcount : deleteItems oldDumps (dumps.map Subtype.val).length with
  | none =>
      simp only [hcount] at hitems ⊢
      cases hitems
      rfl
  | some n =>
      simp only [hcount] at hitems ⊢
      rw [hitems]

/-- After the loop, in whatever way it has ended. -/
theorem deleteAll_cases (fds : Nat) (henv : env.Reports unknown) {dir : Str} {items : List FileName}
    (h : Reaches s.tree dir pos) (hnodup : items.Nodup)
    (hdirs : ∀ c ∈ items, s.tree.kindAt (pos ++ [c]) = some .dir) {T' : Node}
    (hT : T' = (endState (deleteAll env fds false dir (items.map Subtype.val) s)).tree) :
    ((∀ c ∈ items, Safe s.tree unknown (pos ++ [c])) ∧ Deleted items pos s.tree T') ∨
      Stuck items pos s.tree T' := by
  have hspec := deleteAll_spec fds henv h hnodup hdirs
  have hend : wp (deleteAll env fds false dir (items.map Subtype.val))
      (fun _ s' => ((∀ c ∈ items, Safe s.tree unknown (pos ++ [c])) ∧
        Deleted items pos s.tree s'.tree) ∨ Stuck items pos s.tree s'.tree)
      (fun _ s' => ((∀ c ∈ items, Safe s.tree unknown (pos ++ [c])) ∧
        Deleted items pos s.tree s'.tree) ∨ Stuck items pos s.tree s'.tree) s :=
    wp_mono hspec (fun _ _ h => Or.inl h) (fun _ _ h => Or.inr h)
  rw [hT]
  exact wp_endState.1 hend

/-- What is not kept is at the front of the listing. -/
theorem mem_take_iff {k : Nat} {T : Node} {dumps : List FileName} {kept : Finset FileName}
    (hsorted : dumps.Pairwise fun a b => bytesOf a.1 < bytesOf b.1)
    (hdumps : dumps.toFinset = kdumpDirs T pos)
    (hkept : Greatest (fun c : FileName => bytesOf c.1) k (kdumpDirs T pos) kept) (c : FileName) :
    c ∈ dumps.take (dumps.length - k) ↔ c ∈ kdumpDirs T pos ∧ c ∉ kept := by
  have hnodup := nodup_of_sorted hsorted
  have hlast := greatest_drop hsorted k
  rw [hdumps] at hlast
  have hcut := List.take_append_drop (dumps.length - k) dumps
  rw [← hcut, List.nodup_append] at hnodup
  rw [hkept.unique hlast, ← hdumps, List.mem_toFinset, List.mem_toFinset]
  constructor
  · intro hc
    exact ⟨List.mem_of_mem_take hc, fun hd => hnodup.2.2 c hc c hd rfl⟩
  · rintro ⟨hc, hd⟩
    rw [← hcut] at hc
    exact (List.mem_append.1 hc).resolve_right hd

theorem Retains.of_deleted {k : Nat} {T T' : Node} {dumps : List FileName}
    {kept : Finset FileName} (hsorted : dumps.Pairwise fun a b => bytesOf a.1 < bytesOf b.1)
    (hdumps : dumps.toFinset = kdumpDirs T pos)
    (hkept : Greatest (fun c : FileName => bytesOf c.1) k (kdumpDirs T pos) kept)
    (h : Deleted (dumps.take (dumps.length - k)) pos T T') : Retains k pos kept T T' where
  greatest := hkept
  remain c hc := by
    constructor
    · intro hleft
      by_contra hgone
      exact hleft (h.gone c ((mem_take_iff hsorted hdumps hkept c).2 ⟨hc, hgone⟩))
    · intro hc' hnone
      have hother : ∀ d ∈ dumps.take (dumps.length - k), ¬ pos ++ [d] <+: pos ++ [c] := by
        intro d hd
        refine not_prefix_sibling ?_
        rintro rfl
        exact ((mem_take_iff hsorted hdumps hkept d).1 hd).2 hc'
      rw [h.others _ hother, (mem_kdumpDirs.1 hc).1] at hnone
      cases hnone
  untouched q hq := by
    refine h.others q fun c hc => ?_
    obtain ⟨hmem, hgone⟩ := (mem_take_iff hsorted hdumps hkept c).1 hc
    exact hq c hmem hgone
  latest _ hdate := latest_of_greatest hkept hdate

/-- A dump that has to go is not there in the end. -/
theorem Retains.gone {k : Nat} {T T' : Node} {dumps : List FileName} {kept : Finset FileName}
    (hsorted : dumps.Pairwise fun a b => bytesOf a.1 < bytesOf b.1)
    (hdumps : dumps.toFinset = kdumpDirs T pos) (h : Retains k pos kept T T') {c : FileName}
    (hc : c ∈ dumps.take (dumps.length - k)) : T'.kindAt (pos ++ [c]) = none := by
  obtain ⟨hmem, hgone⟩ := (mem_take_iff hsorted hdumps h.greatest c).1 hc
  by_contra hleft
  exact hgone ((h.remain c hmem).1 hleft)

/-- If the right dumps remain, then enough of them have been given to the loop. -/
theorem Retains.length_le {k m : Nat} {T T' : Node} {dumps : List FileName}
    {kept : Finset FileName} (hsorted : dumps.Pairwise fun a b => bytesOf a.1 < bytesOf b.1)
    (hdumps : dumps.toFinset = kdumpDirs T pos) (h : Retains k pos kept T T')
    (hothers : ∀ q, (∀ c ∈ dumps.take m, ¬ pos ++ [c] <+: q) → T'.kindAt q = T.kindAt q) :
    dumps.length - k ≤ m := by
  have hnodup := nodup_of_sorted hsorted
  by_contra hlt
  have hm : m < dumps.length := by omega
  have hnone := h.gone hsorted hdumps (List.mem_take_iff_getElem.2 ⟨m, by omega, rfl⟩)
  -- the first dump that the loop was not given is still there
  have hother : ∀ c ∈ dumps.take m, ¬ pos ++ [c] <+: pos ++ [dumps[m]] := by
    intro c hc
    obtain ⟨i, hi, rfl⟩ := List.mem_take_iff_getElem.1 hc
    refine not_prefix_sibling fun heq => ?_
    have hsame := (List.Nodup.getElem_inj_iff hnodup).1 heq
    omega
  have hmem : dumps[m] ∈ kdumpDirs T pos := by
    rw [← hdumps]
    exact List.mem_toFinset.2 (List.getElem_mem hm)
  rw [hothers _ hother, (mem_kdumpDirs.1 hmem).1] at hnone
  cases hnone

/-- After `delete_one` exactly the dumps with the greatest names remain, and a dry run changes
nothing, if and only if the number of dumps is an `int` and below every dump that has to go the
types of all directories that are not empty are reported. -/
theorem delete_one_retains_iff (henv : env.Reports unknown) (hfile : url.m_protocol = .PROT_FILE)
    (hn : -1 ≤ oldDumps) (hn0 : oldDumps ≠ 0) (h : Reaches s.tree url.getRealPath pos)
    (hfds : 0 < fds) (hdepth : ∀ c ∈ kdumpDirs s.tree pos, DepthLt s.tree (pos ++ [c]) fds) :
    ((∃ kept, Retains (keepCount oldDumps) pos kept s.tree
        (endState (delete_one env fds false url oldDumps s)).tree) ∧
      (endState (delete_one env fds true url oldDumps s)).tree = s.tree) ↔
      (kdumpDirs s.tree pos).card < 2 ^ 31 ∧
        ∀ kept, Greatest (fun c : FileName => bytesOf c.1) (keepCount oldDumps)
            (kdumpDirs s.tree pos) kept →
          ∀ c ∈ kdumpDirs s.tree pos, c ∉ kept → Safe s.tree unknown (pos ++ [c]) := by
  obtain ⟨s₁, dumps, htree, hdumps, hsorted, hrun⟩ := delete_one_eq oldDumps henv hfile h hfds
  obtain ⟨m, hitems, hle, hexact⟩ := toDelete_eq hn hn0 (dumps.map Subtype.val)
  rw [List.length_map] at hle hexact
  rw [← List.map_take] at hitems
  have hnodup := nodup_of_sorted hsorted
  have hcard : (kdumpDirs s.tree pos).card = dumps.length := by
    rw [← hdumps, List.toFinset_card_of_nodup hnodup]
  have hmem : ∀ c ∈ dumps.take m, c ∈ kdumpDirs s.tree pos := by
    intro c hc
    rw [← hdumps]
    exact List.mem_toFinset.2 (List.mem_of_mem_take hc)
  replace hnodup : (dumps.take m).Nodup := hnodup.sublist (List.take_sublist m dumps)
  -- a dry run never changes anything, so that the rest is about deleting the first `m` dumps
  rw [and_iff_left (delete_one_dryRun env fds url oldDumps s), hrun _ hitems, hcard, ← hexact]
  rw [← htree] at h hdepth hdumps hmem ⊢
  have hdirs : ∀ c ∈ dumps.take m, s₁.tree.kindAt (pos ++ [c]) = some .dir :=
    fun c hc => (mem_kdumpDirs.1 (hmem c hc)).1
  have hspec := deleteAll_spec fds henv h hnodup hdirs
  constructor
  · -- if the right dumps remain, then `m` is the right number, and none of these got stuck
    rintro ⟨kept, hretains⟩
    have hcases := deleteAll_cases fds henv h hnodup hdirs rfl
    have hm : m = dumps.length - keepCount oldDumps := by
      refine le_antisymm hle (hretains.length_le hsorted hdumps ?_)
      rcases hcases with ⟨-, hdeleted⟩ | hstuck
      · exact hdeleted.others
      · exact hstuck.others
    refine ⟨hm, fun kept' hkept' c hc hc' => ?_⟩
    rcases hcases with ⟨hsafe, -⟩ | ⟨⟨d, hd, hleft⟩, -⟩
    · refine hsafe c ?_
      rw [hm, mem_take_iff hsorted hdumps hkept']
      exact ⟨hc, hc'⟩
    · rw [hm] at hd
      rw [hretains.gone hsorted hdumps hd] at hleft
      cases hleft
  · -- the names are sorted, so that the greatest ones stand at the end
    rintro ⟨hm, hsafe⟩
    have hlast := greatest_drop hsorted (keepCount oldDumps)
    rw [hdumps] at hlast
    have hsafe' : ∀ c ∈ dumps.take m, Safe s₁.tree unknown (pos ++ [c]) := by
      intro c hc
      rw [hm, mem_take_iff hsorted hdumps hlast] at hc
      exact hsafe _ hlast c hc.1 hc.2
    obtain ⟨s', hok⟩ := deleteAll_complete henv h hnodup hdirs
      (fun c hc => hdepth c (hmem c hc)) hsafe'
    have hdeleted := (wp_ok hspec hok).2
    rw [hm] at hdeleted
    rw [hok]
    exact ⟨_, Retains.of_deleted hsorted hdumps hlast hdeleted⟩

end

/-- The URL of the directory `/crash`. -/
def crashURL : RootDirURL where
  m_url := str "file:///crash"
  m_protocol := .PROT_FILE
  m_hostname := []
  m_port := -1
  m_username := []
  m_password := []
  m_path := str "/crash"
  m_realpath := str "/crash"

/-- A directory with a foreign file, one dump without and one with a subdirectory. -/
def crashTree : Node :=
  .dir [(⟨str "crash", by decide⟩, .dir
    [ (⟨str "2024-02-29-07:05", by decide⟩, .dir [(⟨str "vmcore", by decide⟩, .file)]),
      (⟨str "README", by decide⟩, .file),
      (⟨str "2023-12-24-18:30", by decide⟩, .dir
        [ (⟨str "vmcore", by decide⟩, .file),
          (⟨str "logs", by decide⟩, .dir [(⟨str "dmesg", by decide⟩, .file)]) ]) ])]

def crashDir : FileName := ⟨str "crash", by decide⟩

example : RootDirURL.new crashTree.sys (str "file:///crash") [] = .ok crashURL := by
  decide +kernel

theorem crashTree_reaches : Reaches crashTree crashURL.getRealPath [crashDir] :=
  Reaches.of_names (by decide) (by decide) (by decide +kernel) (by decide +kernel)

theorem crashTree_dumps : kdumpDirs crashTree [crashDir] =
    {⟨str "2024-02-29-07:05", by decide⟩, ⟨str "2023-12-24-18:30", by decide⟩} := by
  decide +kernel

theorem crashTree_depth : ∀ c ∈ kdumpDirs crashTree [crashDir],
    DepthLt crashTree ([crashDir] ++ [c]) 2 := by
  intro c hc
  rw [crashTree_dumps, Finset.mem_insert, Finset.mem_singleton] at hc
  rcases hc with rfl | rfl
  · refine depthLt_succ (by rfl) ?_
    simp only [List.forall_mem_singleton]
    exact depthLt_leaf (by decide) 1
  · refine depthLt_succ (by rfl) ?_
    simp only [List.forall_mem_cons]
    refine ⟨depthLt_leaf (by decide) 1, depthLt_succ (by rfl) ?_, List.forall_mem_nil _⟩
    simp only [List.forall_mem_singleton]
    exact depthLt_leaf (by decide) 0

/-- With all types reported, the latest dump remains. -/
theorem delete_one_retains_latest :
    (∃ kept, Retains (keepCount 1) [crashDir] kept crashTree
        (endState (delete_one (Env.honest fun _ => false) 2 false crashURL 1
          ⟨crashTree, 0, []⟩)).tree) ∧
      (endState (delete_one (Env.honest fun _ => false) 2 true crashURL 1
        ⟨crashTree, 0, []⟩)).tree = crashTree := by
  refine (@delete_one_retains_iff (Env.honest fun _ => false) (fun _ => false) 2 crashURL 1
    [crashDir] ⟨crashTree, 0, []⟩ (Env.honest_reports _) rfl (by decide) (by decide)
    crashTree_reaches (by decide) crashTree_depth).2 ⟨?_, ?_⟩
  · rw [crashTree_dumps]
    decide
  · intro kept _ c _ _
    exact safe_of_smooth _ _

/-- With no types reported, the dump with a subdirectory stays although none is to be kept. -/
theorem delete_one_keeps_nested :
    (Env.honest fun _ => true).Reports (fun _ => true) ∧
      ¬ ∃ kept, Retains (keepCount (-1)) [crashDir] kept crashTree
        (endState (delete_one (Env.honest fun _ => true) 2 false crashURL (-1)
          ⟨crashTree, 0, []⟩)).tree := by
  refine ⟨Env.honest_reports _, ?_⟩
  rintro ⟨kept, h⟩
  have hmem : (⟨str "2023-12-24-18:30", by decide⟩ : FileName) ∈
      kdumpDirs crashTree [crashDir] := by
    rw [crashTree_dumps]
    exact Finset.mem_insert_of_mem (Finset.mem_singleton_self _)
  have hleft : (endState (delete_one (Env.honest fun _ => true) 2 false crashURL (-1)
      ⟨crashTree, 0, []⟩)).tree.kindAt ([crashDir] ++ [⟨str "2023-12-24-18:30", by decide⟩]) ≠
        none := by
    decide +kernel
  have hkept := (h.remain _ hmem).1 hleft
  have hcard : kept.card = 0 := h.greatest.card
  rw [Finset.card_eq_zero.1 hcard] at hkept
  exact absurd hkept (Finset.notMem_empty _)

/-! ## The number of names that are copied -/

/-- The count `m - k`, as an `int`, where `m` is the size as an `int`. -/
theorem wrapped_count_iff {size : Nat} {m k : Int} (hle : k ≤ m) (hge : -2 ^ 31 ≤ k) (hne : k ≠ -1)
    (hm : m < 2 ^ 31 ∧ m ≤ size ∧ (size < 2 ^ 31 → m = size)) :
    ((m - k).bmod (2 ^ 32)).toNat ≤ size ↔ -1 ≤ k ∨ 2 ^ 31 ≤ (size : Int) - k := by
  by_cases hsmall : m - k < 2 ^ 31
  · have hsame : (m - k).bmod (2 ^ 32) = m - k := by
      refine Int.bmod_eq_of_le ?_ ?_ <;> omega
    rw [hsame]
    omega
  · -- the difference becomes negative
    have hnegative : (m - k).bmod (2 ^ 32) = m - k - 2 ^ 32 := by
      refine (Int.sub_bmod_right (m - k) (2 ^ 32)).symm.trans ?_
      refine Int.bmod_eq_of_le ?_ ?_ <;> omega
    rw [hnegative]
    omega

/-- The count is in range, unless more dumps are to be kept than none, and fewer than `-1`: then it
is too large, as long as it is positive. -/
theorem deleteItems_inside_iff (oldDumps : Int32) (size : Nat) :
    (∀ n, deleteItems oldDumps size = some n → n.toInt.toNat ≤ size) ↔
      -1 ≤ oldDumps.toInt ∨ 2 ^ 31 ≤ (size : Int) - oldDumps.toInt := by
  have hlt := oldDumps.toInt_lt
  have hge := oldDumps.le_toInt
  have hwrap : (Int32.ofNat size).toInt = (size : Int).bmod (2 ^ 32) := Int32.toInt_ofNat'
  have hbmod := Int.bmod_def (size : Int) (2 ^ 32)
  have hminus : (-1 : Int32).toInt = -1 := rfl
  unfold deleteItems
  by_cases hall : oldDumps = -1
  · rw [if_pos hall]
    refine iff_of_true ?_ (.inl ?_)
    · rintro n ⟨⟩
      rw [hwrap]
      omega
    · rw [hall, hminus]
  · rw [if_neg hall]
    have hne : oldDumps.toInt ≠ -1 := fun h => hall (Int32.toInt_inj.1 (h.trans hminus.symm))
    by_cases hfew : oldDumps > Int32.ofNat size
    · rw [if_pos hfew]
      refine iff_of_true nofun ?_
      rw [gt_iff_lt, Int32.lt_iff_toInt_lt, hwrap] at hfew
      omega
    · rw [if_neg hfew]
      rw [gt_iff_lt, Int32.lt_iff_toInt_lt, hwrap] at hfew
      -- the difference wraps around a second time, as an `int`
      have hsub : (Int32.ofNat size - oldDumps).toInt =
          ((size : Int).bmod (2 ^ 32) - oldDumps.toInt).bmod (2 ^ 32) := by
        rw [Int32.toInt_sub, hwrap]
      have hcount : (∀ n, some (Int32.ofNat size - oldDumps) = some n → n.toInt.toNat ≤ size) ↔
          (Int32.ofNat size - oldDumps).toInt.toNat ≤ size := by
        simp only [Option.some.injEq, forall_eq']
      have hint : (size : Int).bmod (2 ^ 32) < 2 ^ 31 ∧ (size : Int).bmod (2 ^ 32) ≤ size ∧
          (size < 2 ^ 31 → (size : Int).bmod (2 ^ 32) = size) := by omega
      rw [hcount, hsub]
      clear hbmod hwrap hsub hcount
      generalize (size : Int).bmod (2 ^ 32) = m at hfew hint
      exact wrapped_count_iff (Int.not_lt.1 hfew) hge hne hint

section

variable {env : Env} {fds : Nat} {m_dryRun : Bool}

theorem rmdir_defined (fds : Nat) (path : Str) (recursive : Bool) (s : State) :
    wp (rmdir env fds path recursive) (fun _ _ => True) (fun e _ => e ≠ .undefined) s := by
  -- a system call that fails throws a `KSystemError`
  have hsystem : ∀ {α : Type} (message : Str) (call : SysCall α) (s : State),
      wp (orThrow message call) (fun _ _ => True) (fun e _ => e ≠ .undefined) s := by
    intro α message call s
    rw [wp_orThrow]
    exact wp_intro (fun _ _ _ => trivial) fun _ _ _ => nofun
  induction fds generalizing path recursive s with
  | zero =>
      cases recursive with
      | false => exact hsystem _ _ s
      | true => exact nofun
  | succ fds ih =>
      cases recursive with
      | false => exact hsystem _ _ s
      | true =>
          have hentries : ∀ entries s, wp (removeEntries env (fun fn => rmdir env fds fn true) path
              entries) (fun _ _ => True) (fun e _ => e ≠ .undefined) s := by
            intro entries
            induction entries with
            | nil => exact fun _ => trivial
            | cons ptr rest ih' =>
                intro s
                rw [removeEntries, wp_bind]
                refine wp_mono (?_ : wp _ (fun _ _ => True) (fun e _ => e ≠ .undefined) s)
                  (fun _ s' _ => ih' s') fun _ _ h => h
                unfold removeEntry
                split_ifs
                · trivial
                · exact ih _ true s
                · exact hsystem _ _ s
          rw [rmdir, wp_bind]
          refine wp_mono (hsystem _ _ s) (fun dirptr s' _ => ?_) fun _ _ h => h
          rw [wp_bind]
          exact wp_mono (hentries _ s') (fun _ s'' _ => hsystem _ _ s'') fun _ _ h => h

theorem deleteAll_defined (dir : Str) (items : List Str) (s : State) :
    wp (deleteAll env fds m_dryRun dir items) (fun _ _ => True) (fun e _ => e ≠ .undefined) s := by
  induction items generalizing s with
  | nil => trivial
  | cons item items ih =>
      rw [deleteAll]
      cases m_dryRun with
      | true => exact ih s
      | false =>
          rw [if_neg Bool.false_ne_true, wp_bind]
          exact wp_mono (rmdir_defined fds _ true s) (fun _ s' _ => ih s') fun _ _ h => h

/-- As many names are copied as there are at most, and no others are read, if and only if none or
more are to be kept, or the number to delete does not fit into an `int`. -/
theorem delete_one_inside_iff {url : RootDirURL} {s s' : State} {contents : List Str}
    (h : Lists env fds url s contents s') (oldDumps : Int32) :
    ((∀ n, deleteItems oldDumps contents.length = some n → n.toInt.toNat ≤ contents.length) ∧
      ∀ t, delete_one env fds m_dryRun url oldDumps s ≠ .error .undefined t) ↔
      -1 ≤ oldDumps.toInt ∨ 2 ^ 31 ≤ (contents.length : Int) - oldDumps.toInt := by
  rw [← deleteItems_inside_iff, and_iff_left_iff_imp, delete_one_of_lists h]
  intro hinside t
  cases hitems : deleteItems oldDumps contents.length with
  | none => exact nofun
  | some n =>
      dsimp only
      rw [copyN, if_pos (hinside n hitems)]
      intro hrun
      exact wp_error (deleteAll_defined _ _ s') hrun rfl

end

/-- The two dumps of `/crash`. -/
theorem crashTree_lists (unknown : List FileName → Bool) : ∃ contents s',
    Lists (Env.honest unknown) 2 crashURL ⟨crashTree, 0, []⟩ contents s' ∧
      contents.length = 2 := by
  obtain ⟨s', dumps, hlists, _, hdumps, hsorted⟩ :=
    @exists_lists _ _ 2 crashURL [crashDir] ⟨crashTree, 0, []⟩ (Env.honest_reports unknown) rfl
      crashTree_reaches (by decide)
  have hnodup := nodup_of_sorted hsorted
  refine ⟨_, s', hlists, ?_⟩
  rw [List.length_map, ← List.toFinset_card_of_nodup hnodup, hdumps, crashTree_dumps]
  decide

theorem delete_one_inside_one : ∃ contents s',
    Lists (Env.honest fun _ => false) 2 crashURL ⟨crashTree, 0, []⟩ contents s' ∧
      ∀ t, delete_one (Env.honest fun _ => false) 2 false crashURL 1 ⟨crashTree, 0, []⟩ ≠
        .error .undefined t := by
  obtain ⟨contents, s', hlists, _⟩ := crashTree_lists fun _ => false
  exact ⟨contents, s', hlists, ((delete_one_inside_iff hlists 1).2 (.inl (by decide))).2⟩

/-- With -2, four of two names are to be copied. -/
theorem delete_one_reads_outside : ∃ contents s',
    Lists (Env.honest fun _ => false) 2 crashURL ⟨crashTree, 0, []⟩ contents s' ∧
      contents.length = 2 ∧ deleteItems (-2) contents.length = some 4 ∧
      delete_one (Env.honest fun _ => false) 2 false crashURL (-2) ⟨crashTree, 0, []⟩ =
        .error .undefined s' := by
  obtain ⟨contents, s', hlists, hlength⟩ := crashTree_lists fun _ => false
  have hitems : deleteItems (-2) contents.length = some 4 := by
    rw [hlength]
    decide
  have hfour : (4 : Int32).toInt.toNat = 4 := by decide
  refine ⟨contents, s', hlists, hlength, hitems, ?_⟩
  rw [delete_one_of_lists hlists, hitems]
  dsimp only
  rw [copyN, hfour, hlength, if_neg (by decide)]

end Files
end Kdump
