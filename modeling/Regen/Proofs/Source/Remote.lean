import Mathlib.Data.List.TakeWhile
import Regen.Proofs.Ledger
import Regen.Proofs.Source.Asked
import Regen.Proofs.Text.Newline

/-! # Remote references

    Git lists the references of a remote that end with the one that was asked for, so the list may
    hold strangers.  A reference is looked up under its own names, the preferred one first, and a
    name that is listed again counts with its last commit.  Only if none of these names is listed
    may a stranger get through: where it is the only one in the list. -/

namespace Regen

/-! ## Lists of git -/

/-- **A line of the list** names a commit: the two are parted by the first tab, neither is empty,
    and blanks around them do not count. -/
def Lists (line : List Char) (name commit : String) : Prop :=
  ∃ c n, line = c ++ '\t' :: n ∧ '\t' ∉ c ∧ c ≠ [] ∧ n ≠ [] ∧
    name = Text.trim (String.ofList n) ∧ commit = Text.trim (String.ofList c)

/-- A name is in the list. -/
def Listed (output name : String) : Prop :=
  ∃ line ∈ Text.lines output.toList, ∃ commit, Lists line name commit

/-- **The last line with a name** names the commit. -/
def ListsLast (output name commit : String) : Prop :=
  ∃ before line after, Text.lines output.toList = before ++ line :: after ∧
    Lists line name commit ∧ ∀ other ∈ after, ∀ c, ¬Lists other name c

section lists
variable {line : List Char} {output name commit ref : String}

theorem listedRef?_eq_some_iff :
    listedRef? line = some (name, commit) ↔ Lists line name commit := by
  unfold listedRef?
  constructor
  · intro h
    dsimp only at h
    split at h
    · cases h
    · next hempty =>
      rw [Bool.or_eq_true, not_or] at hempty
      obtain ⟨rfl, rfl⟩ := Prod.mk.inj (Option.some.inj h)
      -- A name that is not empty stands behind a tab.
      cases htab : line.dropWhile (· != '\t') with
      | nil => simp [htab] at hempty
      | cons t n =>
        have ht : t = '\t' := by
          have hhead := List.head?_dropWhile_not (· != '\t') line
          rw [htab] at hhead
          simpa using hhead
        subst ht
        refine ⟨line.takeWhile (· != '\t'), n, ?_, ?_, ?_, ?_, rfl, rfl⟩
        · rw [← htab, List.takeWhile_append_dropWhile]
        · intro hmem
          simpa using List.mem_takeWhile_imp hmem
        · simpa using hempty.1
        · simpa [htab] using hempty.2
  · intro h
    obtain ⟨c, n, rfl, htab, hc, hn, rfl, rfl⟩ := h
    have hplain : ∀ x ∈ c, (x != '\t') = true := by
      intro x hx
      simp only [bne_iff_ne, ne_eq]
      exact fun heq => htab (heq ▸ hx)
    have htake : (c ++ '\t' :: n).takeWhile (· != '\t') = c := by
      rw [List.takeWhile_append_of_pos hplain]
      simp
    have hdrop : (c ++ '\t' :: n).dropWhile (· != '\t') = '\t' :: n := by
      rw [List.dropWhile_append_of_pos hplain]
      simp
    simp [htake, hdrop, hc, hn]

theorem find?_listedRefs : (listedRefs output).find? name = some commit ↔
    ListsLast output name commit := by
  unfold listedRefs ListsLast
  rw [Ledger.find?_ofEntries_eq_some_iff]
  constructor
  · intro h
    obtain ⟨before, after, heq, hafter⟩ := h
    -- The entry comes from a line, and those behind it come from lines behind that one.
    obtain ⟨front, back, hlines, -, hback⟩ := List.filterMap_eq_append_iff.mp heq
    obtain ⟨between, line, behind, rfl, -, hline, hbehind⟩ := List.filterMap_eq_cons_iff.mp hback
    refine ⟨front ++ between, line, behind, by rw [hlines, List.append_assoc],
      listedRef?_eq_some_iff.mp hline, ?_⟩
    intro other hother c hlists
    refine hafter (name, c) ?_ rfl
    rw [← hbehind]
    exact List.mem_filterMap.mpr ⟨other, hother, listedRef?_eq_some_iff.mpr hlists⟩
  · intro h
    obtain ⟨before, line, after, hlines, hline, hafter⟩ := h
    refine ⟨before.filterMap listedRef?, after.filterMap listedRef?, ?_, ?_⟩
    · rw [hlines, List.filterMap_append, List.filterMap_cons, listedRef?_eq_some_iff.mpr hline]
    · intro e he hname
      obtain ⟨other, hother, hlists⟩ := List.mem_filterMap.mp he
      obtain ⟨n, c⟩ := e
      subst hname
      exact hafter other hother c (listedRef?_eq_some_iff.mp hlists)

theorem mem_names_listedRefs : name ∈ (listedRefs output).names ↔ Listed output name := by
  unfold listedRefs Listed
  rw [Ledger.mem_names_ofEntries]
  constructor
  · intro h
    obtain ⟨⟨n, c⟩, he, rfl⟩ := h
    obtain ⟨line, hline, hlists⟩ := List.mem_filterMap.mp he
    exact ⟨line, hline, c, listedRef?_eq_some_iff.mp hlists⟩
  · intro h
    obtain ⟨line, hline, c, hlists⟩ := h
    exact ⟨(name, c), List.mem_filterMap.mpr ⟨line, hline, listedRef?_eq_some_iff.mpr hlists⟩, rfl⟩

theorem ListsLast.listed (h : ListsLast output name commit) : Listed output name := by
  obtain ⟨before, line, after, hlines, hlists, -⟩ := h
  exact ⟨line, by simp [hlines], commit, hlists⟩

theorem find?_listedRefs_eq_none : (listedRefs output).find? name = none ↔ ¬Listed output name := by
  rw [← mem_names_listedRefs, ← Ledger.find?_isSome_iff, Bool.not_eq_true,
    Option.isSome_eq_false_iff, Option.isNone_iff_eq_none]

end lists

/-! ## Names of a reference -/

/-- **The names that a reference denotes** where git looks it up. -/
def Denotes (ref name : String) : Prop :=
  name ∈ [ref, "refs/" ++ ref, "refs/tags/" ++ ref, "refs/tags/" ++ ref ++ "^\x7b\x7d",
    "refs/heads/" ++ ref, "refs/remotes/" ++ ref]

/-- Only one name is listed, and the reference does not denote it. -/
def OnlyStranger (output ref : String) : Prop :=
  ∃ name, (∀ other, Listed output other ↔ other = name) ∧ ¬Denotes ref name

/-- The name of the commit behind a tag. -/
def peeledName (ref : String) : String := "refs/tags/" ++ ref ++ "^\x7b\x7d"

def branchName (ref : String) : String := "refs/heads/" ++ ref

def tagName (ref : String) : String := "refs/tags/" ++ ref

/-- **A reference comes to itself**: to a commit that is listed under one of its names, where a
    tag's commit is preferred to a branch, a branch to a tag and a tag to the name itself, and to
    none where none of its names is listed. -/
structure ComesToItself (url ref output : String) (outcome : Except Failure String) : Prop where
  sound : ∀ commit, outcome = .ok commit → ∃ name, Denotes ref name ∧ ListsLast output name commit
  peeled : ∀ commit, ListsLast output (peeledName ref) commit → outcome = .ok commit
  branch : ¬Listed output (peeledName ref) →
    ∀ commit, ListsLast output (branchName ref) commit → outcome = .ok commit
  tag : ¬Listed output (peeledName ref) → ¬Listed output (branchName ref) →
    ∀ commit, ListsLast output (tagName ref) commit → outcome = .ok commit
  itself : ¬Listed output (peeledName ref) → ¬Listed output (branchName ref) →
    ¬Listed output (tagName ref) → ∀ commit, ListsLast output ref commit → outcome = .ok commit
  unknown : (∀ name, Denotes ref name → ¬Listed output name) →
    outcome = .error (.fingerprint (.unknownRef ref (maskCredentials url)))

section names
variable {url ref output name commit : String}

theorem denotes_of_mem_refNames (h : name ∈ refNames ref) : Denotes ref name := by
  simp only [refNames, List.mem_cons, List.not_mem_nil, or_false] at h
  simp only [Denotes, List.mem_cons, List.not_mem_nil, or_false]
  tauto

/-- The four names are tried in their order. -/
theorem findSome?_refNames :
    ((refNames ref).findSome? fun name => (listedRefs output).find? name) = some commit ↔
      ∃ before name after, refNames ref = before ++ name :: after ∧
        (∀ other ∈ before, ¬Listed output other) ∧ ListsLast output name commit := by
  rw [List.findSome?_eq_some_iff]
  simp only [find?_listedRefs, find?_listedRefs_eq_none]
  constructor
  · intro h
    obtain ⟨before, name, after, heq, hname, hbefore⟩ := h
    exact ⟨before, name, after, heq, hbefore, hname⟩
  · intro h
    obtain ⟨before, name, after, heq, hbefore, hname⟩ := h
    exact ⟨before, name, after, heq, hname, hbefore⟩

/-- Where none of the four is listed, the only name in the list will do. -/
theorem chooseRef?_of_unlisted (hnone : ∀ name ∈ refNames ref, ¬Listed output name) :
    chooseRef? (listedRefs output) ref = some commit ↔
      ∃ name, (∀ other, Listed output other ↔ other = name) ∧ ListsLast output name commit := by
  have hfind : ((refNames ref).findSome? fun name => (listedRefs output).find? name) = none := by
    rw [List.findSome?_eq_none_iff]
    intro name hname
    exact find?_listedRefs_eq_none.mpr (hnone name hname)
  unfold chooseRef?
  rw [hfind, Option.none_or]
  have hdistinct : (listedRefs output).names.Nodup := Ledger.nodup_names_ofEntries _
  constructor
  · intro h
    split at h
    · next name c hrefs =>
      obtain rfl := Option.some.inj h
      refine ⟨name, ?_, ?_⟩
      · intro other
        rw [← mem_names_listedRefs, hrefs]
        exact List.mem_singleton
      · rw [← find?_listedRefs, hrefs]
        simp [Ledger.find?_cons]
    · cases h
  · intro h
    obtain ⟨name, honly, hlast⟩ := h
    -- A ledger whose only name is this one has one entry.
    have hnames : (listedRefs output).names = [name] := by
      refine List.perm_singleton.mp ((List.perm_ext_iff_of_nodup hdistinct
        (List.nodup_singleton name)).mpr fun other => ?_)
      rw [mem_names_listedRefs, honly, List.mem_singleton]
    obtain ⟨⟨n, c⟩, hrefs, rfl⟩ := List.map_eq_singleton_iff.mp hnames
    have hfound := find?_listedRefs.mpr hlast
    rw [hrefs, Ledger.find?_cons, if_pos (by simp)] at hfound
    rw [hrefs, Option.some.inj hfound]

theorem commitIn_eq_ok :
    commitIn url ref output = .ok commit ↔ chooseRef? (listedRefs output) ref = some commit := by
  unfold commitIn
  cases chooseRef? (listedRefs output) ref <;> simp

theorem chooseRef?_of_found
    (h : ((refNames ref).findSome? fun name => (listedRefs output).find? name) = some commit) :
    chooseRef? (listedRefs output) ref = some commit := by
  unfold chooseRef?
  rw [h, Option.some_or]

/-- A stranger that is the only one in the list is taken. -/
theorem commitIn_of_stranger (h : OnlyStranger output ref) :
    ∃ name commit, ¬Denotes ref name ∧ ListsLast output name commit ∧
      commitIn url ref output = .ok commit := by
  obtain ⟨name, honly, hstranger⟩ := h
  have hnone : ∀ other ∈ refNames ref, ¬Listed output other := by
    intro other hother hlisted
    exact hstranger ((honly other).mp hlisted ▸ denotes_of_mem_refNames hother)
  have hlisted : ((listedRefs output).find? name).isSome :=
    Ledger.find?_isSome_iff.mpr (mem_names_listedRefs.mpr ((honly name).mpr rfl))
  obtain ⟨commit, hcommit⟩ := Option.isSome_iff_exists.mp hlisted
  have hlast := find?_listedRefs.mp hcommit
  refine ⟨name, commit, hstranger, hlast, ?_⟩
  rw [commitIn_eq_ok, chooseRef?_of_unlisted hnone]
  exact ⟨name, honly, hlast⟩

/-- A name is taken if those preferred to it are not listed. -/
theorem commitIn_of_preferred (before : List String) {after : List String}
    (hnames : refNames ref = before ++ name :: after) (hbefore : ∀ n ∈ before, ¬Listed output n)
    (hlast : ListsLast output name commit) : commitIn url ref output = .ok commit := by
  rw [commitIn_eq_ok]
  apply chooseRef?_of_found
  rw [findSome?_refNames]
  exact ⟨before, name, after, hnames, hbefore, hlast⟩

/-- **A reference comes to itself** unless the only name in the list is a stranger. -/
theorem comesToItself_iff :
    ComesToItself url ref output (commitIn url ref output) ↔ ¬OnlyStranger output ref := by
  constructor
  · intro hitself hstranger
    obtain ⟨name, commit, hnot, hlast, hok⟩ := @commitIn_of_stranger url ref output hstranger
    obtain ⟨other, honly, -⟩ := hstranger
    have hother : name = other := (honly name).mp hlast.listed
    have hunknown := hitself.unknown fun n hdenotes hlisted =>
      hnot (hother.trans ((honly n).mp hlisted).symm ▸ hdenotes)
    rw [hunknown] at hok
    cases hok
  · intro hstranger
    have hdenotes : ∀ name, (∀ other, Listed output other ↔ other = name) → Denotes ref name := by
      intro name honly
      by_contra hnot
      exact hstranger ⟨name, honly, hnot⟩
    constructor
    · intro commit hcommit
      rw [commitIn_eq_ok] at hcommit
      cases hfound : (refNames ref).findSome? fun name => (listedRefs output).find? name with
      | some c =>
        obtain rfl := Option.some.inj ((chooseRef?_of_found hfound).symm.trans hcommit)
        obtain ⟨before, name, after, hnames, -, hlast⟩ := findSome?_refNames.mp hfound
        exact ⟨name, denotes_of_mem_refNames (by simp [hnames]), hlast⟩
      | none =>
        have hnone : ∀ name ∈ refNames ref, ¬Listed output name := by
          intro name hname
          exact find?_listedRefs_eq_none.mp (List.findSome?_eq_none_iff.mp hfound name hname)
        obtain ⟨name, honly, hlast⟩ := (chooseRef?_of_unlisted hnone).mp hcommit
        exact ⟨name, hdenotes name honly, hlast⟩
    · intro commit
      exact commitIn_of_preferred [] rfl (fun _ => nofun)
    · intro hpeeled commit
      exact commitIn_of_preferred [peeledName ref] rfl (by simpa using hpeeled)
    · intro hpeeled hbranch commit
      exact commitIn_of_preferred [peeledName ref, branchName ref] rfl
        (by simpa using ⟨hpeeled, hbranch⟩)
    · intro hpeeled hbranch htag commit
      exact commitIn_of_preferred [peeledName ref, branchName ref, tagName ref] rfl
        (by simpa using ⟨hpeeled, hbranch, htag⟩)
    · intro hnone
      have hchosen : chooseRef? (listedRefs output) ref = none := by
        by_contra hsome
        obtain ⟨commit, hcommit⟩ := Option.ne_none_iff_exists'.mp hsome
        obtain ⟨name, honly, hlast⟩ := (chooseRef?_of_unlisted fun name hname =>
          hnone name (denotes_of_mem_refNames hname)).mp hcommit
        exact hnone name (hdenotes name honly) hlast.listed
      unfold commitIn
      rw [hchosen]

end names

/-! ## Resolving -/

/-- **A full commit**: 40 or 64 hexadecimal digits in lower case. -/
structure IsFullCommit (ref : String) : Prop where
  length : ref.toList.length = 40 ∨ ref.toList.length = 64
  digits : ∀ c ∈ ref.toList, c.isDigit ∨ ('a' ≤ c ∧ c ≤ 'f')

theorem isCommit_iff (ref : String) : isCommit ref ↔ OverlooksNewline IsFullCommit ref := by
  have hcheck : ∀ cs : List Char, ((cs.length == 40 || cs.length == 64) &&
      cs.all fun c => c.isDigit || ('a' ≤ c && c ≤ 'f')) ↔ IsFullCommit (String.ofList cs) := by
    intro cs
    constructor
    · intro h
      simp only [Bool.and_eq_true, Bool.or_eq_true, beq_iff_eq, List.all_eq_true,
        decide_eq_true_eq] at h
      exact ⟨by simpa using h.1, by simpa using h.2⟩
    · intro h
      simp only [Bool.and_eq_true, Bool.or_eq_true, beq_iff_eq, List.all_eq_true,
        decide_eq_true_eq]
      exact ⟨by simpa using h.length, by simpa using h.digits⟩
  have hplain : ∀ s, IsFullCommit s → '\n' ∉ s.toList := by
    intro s hs hmem
    have hdigit := hs.digits _ hmem
    revert hdigit
    decide
  exact check_drop_newline_iff hcheck hplain ref

/-- **A remote reference comes to itself, whatever git lists**, unless the only name in the list is
    a stranger: then it comes to the stranger's commit.  A full commit with a line feed behind it
    passes for a commit, and git is not asked. -/
theorem resolveRemote_exact (url ref output : String) (h : Host)
    (hanswer : h.answer = .output output) (href : ¬IsFullCommit ref) :
    ((∃ bare, IsFullCommit bare ∧ ref = bare ++ "\n") ∧ Gives (resolveRemote url ref) h ref h) ∨
    ∃ outcome, (resolveRemote url ref).run.run h =
        (outcome, h.asked ⟨["git", "ls-remote", "--", url, ref], none⟩) ∧
      (ComesToItself url ref output outcome ↔ ¬OnlyStranger output ref) ∧
      (OnlyStranger output ref → ∃ name commit, ¬Denotes ref name ∧
        ListsLast output name commit ∧ outcome = .ok commit) := by
  have hrun := run_resolveRemote url ref h
  by_cases hcommit : isCommit ref
  · rw [if_pos hcommit] at hrun
    exact .inl ⟨((isCommit_iff ref).mp hcommit).resolve_left href, hrun⟩
  · rw [if_neg hcommit, hanswer] at hrun
    exact .inr ⟨commitIn url ref output, hrun, comesToItself_iff, commitIn_of_stranger⟩

section runs

/-- A host where git lists references. -/
def listingHost (output : String) : Host := answeringHost [] [.output output]

/-- Another branch whose name ends alike, and the branch itself. -/
def twoBranches : String := "x\trefs/heads/a/main\ny\trefs/heads/main\n"

/-- The same without the branch itself. -/
def otherBranch : String := "x\trefs/heads/a/main\n"

theorem not_isFullCommit_main : ¬IsFullCommit "main" := by
  intro h
  have hlength := h.length
  revert hlength
  decide

/-- The branch is found beside the stranger. -/
theorem resolveRemote_exact_of_two :
    ¬IsFullCommit "main" ∧ (listingHost twoBranches).answer = .output twoBranches ∧
    ∃ outcome, ((resolveRemote "https://a.b/c" "main").run.run (listingHost twoBranches)).1 =
        outcome ∧
      ComesToItself "https://a.b/c" "main" twoBranches outcome ∧ outcome = .ok "y" := by
  have hnames : (listedRefs twoBranches).names = ["refs/heads/a/main", "refs/heads/main"] := by
    decide
  have hstranger : ¬OnlyStranger twoBranches "main" := by
    intro h
    obtain ⟨name, honly, -⟩ := h
    have hone := (honly "refs/heads/a/main").mp (mem_names_listedRefs.mp (by simp [hnames]))
    have htwo := (honly "refs/heads/main").mp (mem_names_listedRefs.mp (by simp [hnames]))
    exact absurd (hone.trans htwo.symm) (by decide)
  have hlast : ListsLast twoBranches (branchName "main") "y" :=
    find?_listedRefs.mp (by decide)
  have hpeeled : ¬Listed twoBranches (peeledName "main") :=
    find?_listedRefs_eq_none.mp (by decide)
  refine ⟨not_isFullCommit_main, rfl, _, rfl, ?_⟩
  cases resolveRemote_exact "https://a.b/c" "main" twoBranches (listingHost twoBranches) rfl
      not_isFullCommit_main with
  | inl hcommit =>
    obtain ⟨⟨bare, -, heq⟩, -⟩ := hcommit
    have hbreak : '\n' ∈ "main".toList := by
      rw [heq, String.toList_append]
      simp
    exact absurd hbreak (by decide)
  | inr hrun =>
    obtain ⟨outcome, hrun, hexact, -⟩ := hrun
    rw [hrun]
    have hitself := hexact.mpr hstranger
    exact ⟨hitself, hitself.branch hpeeled "y" hlast⟩

/-- **Another branch is taken for the reference**, which denotes none of the names in the list. -/
theorem resolveRemote_misses_stranger :
    ¬IsFullCommit "main" ∧ (∀ name, Denotes "main" name → ¬Listed otherBranch name) ∧
    ∃ h', Gives (resolveRemote "https://a.b/c" "main") (listingHost otherBranch) "x" h' := by
  have hnames : (listedRefs otherBranch).names = ["refs/heads/a/main"] := by decide
  refine ⟨not_isFullCommit_main, ?_, ?_⟩
  · intro name hdenotes hlisted
    have hname := mem_names_listedRefs.mpr hlisted
    rw [hnames, List.mem_singleton] at hname
    subst hname
    unfold Denotes at hdenotes
    revert hdenotes
    decide
  · have hrun := run_resolveRemote "https://a.b/c" "main" (listingHost otherBranch)
    rw [if_neg (by decide)] at hrun
    have hok : commitIn "https://a.b/c" "main" otherBranch = .ok "x" := by decide
    exact ⟨_, hrun.trans (Prod.ext hok rfl)⟩

end runs

end Regen
