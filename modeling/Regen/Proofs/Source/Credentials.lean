import Mathlib.Data.List.DropRight
import Mathlib.Logic.Relation
import Regen.Proofs.Source.Masked
import Regen.Proofs.Source.Resolution
import Regen.Source.Record

/-! # Credentials that are not shown

    A web address carries user information in front of the last `@` of its authority.  Masking
    replaces it by three stars if no other `@` stands in it.  Then nothing that is recorded of a
    source, and nothing that resolving sources comes to, hangs on it. -/

namespace Regen

/-! ## Logins -/

/-- Does the authority of a URL end here? -/
def endsAuthority (c : Char) : Bool := c == '/' || c == '?' || c == '#' || Text.isBlank c

/-- **A web address with user information in a text.** -/
structure Login where
  before : String
  /-- The scheme, in any letter case. -/
  scheme : String
  /-- What stands in the authority in front of its last `@`. -/
  info : String
  /-- The authority behind that sign. -/
  host : String
  after : String
  isWeb : scheme.toList.map Char.toLower = "https://".toList ∨
    scheme.toList.map Char.toLower = "http://".toList
  info_nonempty : info.toList ≠ []
  info_inside : info.toList.all fun c => !endsAuthority c
  host_inside : host.toList.all fun c => c != '@' && !endsAuthority c
  after_ends : after.toList.head?.all endsAuthority

namespace Login

/-- The text with the address in it. -/
def text (l : Login) : String := l.before ++ l.scheme ++ l.info ++ "@" ++ l.host ++ l.after

/-- The text around the user information. -/
def around (l : Login) : String × String × String × String :=
  (l.before, l.scheme, l.host, l.after)

/-- What is shown of the user information. -/
def shown (l : Login) : String := String.ofList (shownInfo l.info.toList)

/-- The address from its scheme to its host. -/
def address (l : Login) : List Char :=
  l.scheme.toList ++ (l.info.toList ++ '@' :: l.host.toList)

variable (l : Login)

theorem toList_text : l.text.toList = l.before.toList ++ (l.address ++ l.after.toList) := by
  simp [text, address]

theorem isScheme : IsScheme l.scheme.toList := l.isWeb.imp spells_of_lower spells_of_lower

/-- A scheme is a name with a colon and two slashes behind it. -/
theorem exists_schemeName : ∃ name, l.scheme.toList = name ++ "://".toList := by
  have hsigns : ∀ cs : List Char, cs.map Char.toLower = "://".toList → cs = "://".toList := by
    intro cs h
    obtain ⟨c, cs, rfl, hc, h⟩ := List.map_eq_cons_iff.mp h
    obtain ⟨d, cs, rfl, hd, h⟩ := List.map_eq_cons_iff.mp h
    obtain ⟨e, cs, rfl, he, h⟩ := List.map_eq_cons_iff.mp h
    rw [eq_of_toLower_sign (by decide) hc, eq_of_toLower_sign (by decide) hd,
      eq_of_toLower_sign (by decide) he, List.map_eq_nil_iff.mp h]
    rfl
  have hparts : ∃ letters, l.scheme.toList.map Char.toLower = letters ++ "://".toList := by
    cases l.isWeb with
    | inl hsecure => exact ⟨"https".toList, hsecure⟩
    | inr hplain => exact ⟨"http".toList, hplain⟩
  obtain ⟨letters, hparts⟩ := hparts
  obtain ⟨name, signs, heq, -, hmap⟩ := List.map_eq_append_iff.mp hparts
  exact ⟨name, heq.trans (by rw [hsigns signs hmap])⟩

/-- **Masking a text with a login**: what stands in front of the address is masked by itself, of
    the user information is left what is shown, and masking reads on at the host. -/
theorem maskCredentials_text :
    maskCredentials l.text = maskCredentials l.before ++ l.scheme ++ l.shown ++ "@" ++
      maskCredentials (l.host ++ l.after) := by
  have hslash : '/' ∉ l.info.toList := fun hmem =>
    absurd (List.all_eq_true.mp l.info_inside _ hmem) (by decide)
  have hparts : l.text.toList = l.before.toList ++ (l.scheme.toList ++
      (l.info.toList ++ '@' :: (l.host ++ l.after).toList)) := by
    simp [text]
  rw [← String.toList_inj]
  simp only [maskCredentials_eq, String.toList_ofList, String.toList_append, shown]
  rw [hparts, mask_append_scheme _ l.isScheme,
    mask_info l.isScheme l.info_nonempty hslash, String.toList_append]
  simp

theorem shown_eq_stars_iff : l.shown = "***" ↔ '@' ∉ l.info.toList := by
  rw [← shownInfo_eq_stars_iff, ← String.toList_inj, shown, String.toList_ofList]

end Login

/-! ## White space around a login -/

/-- Dropping from a text in front of a part that stays. -/
theorem dropWhile_append_of_head {p : Char → Bool} {core : List Char}
    (hcore : ∃ c cs, core = c :: cs ∧ p c = false) (front : List Char) :
    (front ++ core).dropWhile p = front.dropWhile p ++ core := by
  obtain ⟨c, cs, rfl, hc⟩ := hcore
  rw [List.dropWhile_append]
  split
  · next hempty =>
    rw [List.isEmpty_iff.mp hempty, List.dropWhile_cons_of_neg (by simp [hc])]
    rfl
  · rfl

/-- Trimming does not reach into a part that begins and ends with characters that stay. -/
theorem trimBoth_append {p : Char → Bool} {core : List Char}
    (hfirst : ∃ c cs, core = c :: cs ∧ p c = false)
    (hlast : ∃ c cs, core.reverse = c :: cs ∧ p c = false) (front back : List Char) :
    Text.trimBoth p (front ++ (core ++ back)) =
      front.dropWhile p ++ (core ++ back.rdropWhile p) := by
  have hbegin : ∃ c cs, core ++ back = c :: cs ∧ p c = false := by
    obtain ⟨c, cs, rfl, hc⟩ := hfirst
    exact ⟨c, cs ++ back, rfl, hc⟩
  have hend : ∃ c cs, (front.dropWhile p ++ core).reverse = c :: cs ∧ p c = false := by
    obtain ⟨c, cs, hcore, hc⟩ := hlast
    exact ⟨c, cs ++ (front.dropWhile p).reverse, by simp [hcore], hc⟩
  unfold Text.trimBoth List.rdropWhile
  rw [dropWhile_append_of_head hbegin, ← List.append_assoc, List.reverse_append,
    dropWhile_append_of_head hend, List.reverse_append, List.reverse_reverse, List.append_assoc]

namespace Login
variable (l : Login)

theorem address_first : ∃ c cs, l.address = c :: cs ∧ Text.isBlank c = false := by
  obtain ⟨c, cs, hscheme, hc, -⟩ := l.isScheme.eq_cons
  refine ⟨c, cs ++ (l.info.toList ++ '@' :: l.host.toList), by simp [address, hscheme], ?_⟩
  cases eq_h_of_isLetter hc with
  | inl hsmall => exact hsmall ▸ by decide
  | inr hcapital => exact hcapital ▸ by decide

theorem address_last : ∃ c cs, l.address.reverse = c :: cs ∧ Text.isBlank c = false := by
  unfold address
  cases List.eq_nil_or_concat' l.host.toList with
  | inl hnil => exact ⟨'@', (l.scheme.toList ++ l.info.toList).reverse, by simp [hnil], by decide⟩
  | inr hhost =>
    obtain ⟨others, last, hhost⟩ := hhost
    refine ⟨last, (l.scheme.toList ++ (l.info.toList ++ '@' :: others)).reverse,
      by simp [hhost], ?_⟩
    have hinside := List.all_eq_true.mp l.host_inside last (by simp [hhost])
    by_contra hblank
    simp [endsAuthority, hblank] at hinside

/-- The login where white space around the text is removed. -/
def trimmed (l : Login) : Login :=
  { l with
    before := String.ofList (l.before.toList.dropWhile Text.isBlank)
    after := String.ofList (l.after.toList.rdropWhile Text.isBlank)
    after_ends := by
      obtain ⟨back, hback⟩ := List.rdropWhile_prefix Text.isBlank (l := l.after.toList)
      have hends := l.after_ends
      rw [← hback, List.head?_append] at hends
      rw [String.toList_ofList]
      cases hhead : (l.after.toList.rdropWhile Text.isBlank).head? with
      | none => rfl
      | some c => simpa [hhead] using hends }

theorem trim_text : Text.trim l.text = l.trimmed.text := by
  rw [← String.toList_inj, toList_text]
  unfold Text.trim
  rw [String.toList_ofList, toList_text, trimBoth_append l.address_first l.address_last]
  simp [trimmed, address]

theorem around_trimmed {m : Login} (h : l.around = m.around) :
    l.trimmed.around = m.trimmed.around := by
  simp only [around, Prod.mk.injEq] at h ⊢
  obtain ⟨hbefore, hscheme, hhost, hafter⟩ := h
  simp [trimmed, hbefore, hscheme, hhost, hafter]

/-- What has a web address in it is reached over the network. -/
theorem isRemote_text : Url.isRemote l.text := by
  have hoccurs : ∀ front back : List Char,
      Url.occurs "://".toList (front ++ ("://".toList ++ back)) := by
    intro front back
    induction front with
    | nil => rfl
    | cons c front ih =>
      rw [List.cons_append]
      unfold Url.occurs
      rw [ih, Bool.or_true]
  obtain ⟨name, hname⟩ := l.exists_schemeName
  have hparts : l.text.toList = (l.before.toList ++ name) ++
      ("://".toList ++ (l.info.toList ++ '@' :: (l.host.toList ++ l.after.toList))) := by
    simp [text, hname]
  unfold Url.isRemote
  rw [hparts, hoccurs]
  rfl

end Login

/-! ## Texts that differ in logins -/

/-- Two texts differ in the user information of one web address, without an `@` in it. -/
def SwapsInfo (t u : String) : Prop :=
  ∃ l m : Login, '@' ∉ l.info.toList ∧ '@' ∉ m.info.toList ∧ l.around = m.around ∧
    t = l.text ∧ u = m.text

/-- **Two texts are the same but for logins**: step by step, the user information of one web
    address after the other changes. -/
def SameButLogins : String → String → Prop := Relation.ReflTransGen SwapsInfo

section texts
variable {t u : String}

/-- What is masked does not show. -/
theorem maskCredentials_congr (h : SameButLogins t u) : maskCredentials t = maskCredentials u := by
  induction h with
  | refl => rfl
  | tail _ hswap ih =>
    obtain ⟨l, m, hl, hm, haround, rfl, rfl⟩ := hswap
    simp only [Login.around, Prod.mk.injEq] at haround
    obtain ⟨hbefore, hscheme, hhost, hafter⟩ := haround
    rw [ih, l.maskCredentials_text, m.maskCredentials_text, l.shown_eq_stars_iff.mpr hl,
      m.shown_eq_stars_iff.mpr hm, hbefore, hscheme, hhost, hafter]

theorem SameButLogins.trim (h : SameButLogins t u) : SameButLogins (Text.trim t) (Text.trim u) := by
  refine Relation.ReflTransGen.lift Text.trim (fun t u hswap => ?_) _ _ h
  obtain ⟨l, m, hl, hm, haround, rfl, rfl⟩ := hswap
  exact ⟨l.trimmed, m.trimmed, hl, hm, l.around_trimmed haround, l.trim_text, m.trim_text⟩

/-- A path has no logins to differ in. -/
theorem SameButLogins.eq_or_remote (h : SameButLogins t u) :
    t = u ∨ (Url.isRemote t ∧ Url.isRemote u) := by
  induction h with
  | refl => exact .inl rfl
  | tail _ hswap ih =>
    obtain ⟨l, m, -, -, -, rfl, rfl⟩ := hswap
    refine .inr ⟨?_, m.isRemote_text⟩
    cases ih with
    | inl heq => exact heq ▸ l.isRemote_text
    | inr hremote => exact hremote.1

end texts

/-! ## Sources and answers -/

/-- The source with its repository at another place. -/
def Source.movedTo (s : Source) (url : String) : Source := { s with git := ⟨url, s.git.ref⟩ }

/-- Two sources are the same but for logins in their URLs. -/
def Source.SameButLogins (s s' : Source) : Prop :=
  ∃ url, Regen.SameButLogins s.git.url url ∧ s' = s.movedTo url

/-- Two answers of git are the same but for logins in what it says when it refuses. -/
inductive GitAnswer.SameButLogins : GitAnswer → GitAnswer → Prop where
  | output (text : String) : SameButLogins (.output text) (.output text)
  | refusal {t u : String} (h : Regen.SameButLogins t u) : SameButLogins (.refusal t) (.refusal u)
  | missing : SameButLogins .missing .missing

/-- Two hosts have the same disk, and answers of git that are the same but for logins. -/
structure Host.SameButLogins (h h' : Host) : Prop where
  disk : h.disk = h'.disk
  git : List.Forall₂ (fun r r' => r.answer.SameButLogins r'.answer ∧ r.writes = r'.writes)
    h.git h'.git

section runs
variable {s s' : Source} {h h' : Host} {a a' : GitAnswer} {d : Disk}

theorem Host.SameButLogins.answer (hsame : h.SameButLogins h') :
    h.answer.SameButLogins h'.answer := by
  have hgit := hsame.git
  unfold Host.answer
  cases hold : h.git with
  | nil =>
    rw [hold, List.forall₂_nil_left_iff] at hgit
    rw [hgit]
    exact .missing
  | cons reply rest =>
    rw [hold] at hgit
    obtain ⟨reply', rest', hreply, -, hnew⟩ := List.forall₂_cons_left_iff.mp hgit
    rw [hnew]
    exact hreply.1

theorem Host.SameButLogins.asked (hsame : h.SameButLogins h') (call call' : GitCall) :
    (h.asked call).SameButLogins (h'.asked call') := by
  have hgit := hsame.git
  unfold Host.asked
  cases hold : h.git with
  | nil =>
    rw [hold, List.forall₂_nil_left_iff] at hgit
    rw [hgit]
    exact ⟨hsame.disk, .nil⟩
  | cons reply rest =>
    rw [hold] at hgit
    obtain ⟨reply', rest', hreply, hrest, hnew⟩ := List.forall₂_cons_left_iff.mp hgit
    rw [hnew]
    exact ⟨by simp only [hsame.disk, hreply.2], hrest⟩

/-- What is made of an answer does not hang on logins. -/
theorem GitAnswer.SameButLogins.heard (hsame : a.SameButLogins a') (command : String) :
    a.heard command = a'.heard command := by
  cases hsame with
  | output text => rfl
  | refusal htext =>
    show Except.error _ = Except.error _
    rw [maskCredentials_congr htext.trim]
  | missing => rfl

theorem Source.SameButLogins.eq_or_remote (hsource : s.SameButLogins s') :
    s = s' ∨ (Url.isRemote s.git.url ∧ Url.isRemote s'.git.url) := by
  obtain ⟨url, hurl, rfl⟩ := hsource
  cases hurl.eq_or_remote with
  | inl heq =>
    refine .inl ?_
    unfold Source.movedTo
    rw [← heq]
  | inr hremote => exact .inr hremote

/-- **A step of resolving**: the fingerprint does not hang on logins. -/
theorem Source.SameButLogins.comesTo (hsource : s.SameButLogins s') (hanswer : a.SameButLogins a') :
    s.comesTo d a = s'.comesTo d a' := by
  have hcommit : s.commit d a = s'.commit d a' := by
    -- The URL of a remote gets into nothing but one message, and there it is masked.
    cases hsource.eq_or_remote with
    | inl heq =>
      subst heq
      unfold Source.commit
      simp only [hanswer.heard]
    | inr hremote =>
      obtain ⟨url, hurl, rfl⟩ := hsource
      rw [commit_of_remote hremote.1, commit_of_remote hremote.2, hanswer.heard]
      have hlist : commitIn s.git.url = commitIn url := by
        funext ref output
        unfold commitIn
        rw [maskCredentials_congr hurl]
      rw [hlist]
      rfl
  obtain ⟨_, -, rfl⟩ := hsource
  unfold Source.comesTo
  rw [hcommit]
  rfl

theorem Source.SameButLogins.after (hsource : s.SameButLogins s') (hhost : h.SameButLogins h') :
    (h.after s).SameButLogins (h'.after s') := by
  -- The questions differ, but git is asked for both sources or for none of them.
  have hquestion : (s.question? h.disk = none ∧ s'.question? h'.disk = none) ∨
      ∃ call call', s.question? h.disk = some call ∧ s'.question? h'.disk = some call' := by
    rw [← hhost.disk]
    cases hsource.eq_or_remote with
    | inl heq =>
      subst heq
      cases s.question? h.disk with
      | none => exact .inl ⟨rfl, rfl⟩
      | some call => exact .inr ⟨call, call, rfl, rfl⟩
    | inr hremote =>
      obtain ⟨url, -, rfl⟩ := hsource
      rw [question?_of_remote hremote.1, question?_of_remote hremote.2]
      by_cases hcommit : isCommit s.git.ref
      · exact .inl ⟨if_pos hcommit, if_pos hcommit⟩
      · exact .inr ⟨_, _, if_neg hcommit, if_neg hcommit⟩
  unfold Host.after
  cases hquestion with
  | inl hnone =>
    rw [hnone.1, hnone.2]
    exact hhost
  | inr hasked =>
    obtain ⟨call, call', hcall, hcall'⟩ := hasked
    rw [hcall, hcall']
    exact hhost.asked call call'

/-- **A run of resolving** comes to the same, whatever the logins are. -/
theorem resolveFrom_congr {sources sources' : List Source}
    (hsources : List.Forall₂ Source.SameButLogins sources sources') (hhost : h.SameButLogins h')
    (failFast : Bool) (r : Resolution) :
    ((resolveFrom failFast r sources).run.run h).1 =
      ((resolveFrom failFast r sources').run.run h').1 := by
  induction hsources generalizing h h' r with
  | nil => rfl
  | @cons s s' rest rest' hsource _ ih =>
    have hstep := gives_outcome s h
    have hstep' := gives_outcome s' h'
    have hname : s.name = s'.name := by
      obtain ⟨_, -, rfl⟩ := hsource
      rfl
    rw [← hhost.disk, ← hsource.comesTo hhost.answer] at hstep'
    unfold resolveFrom
    rw [hstep.run_bind, hstep'.run_bind]
    have hnext := hsource.after hhost
    cases s.comesTo h.disk h.answer with
    | ok commit =>
      rw [← hname]
      exact ih hnext _
    | error f =>
      cases f with
      | fingerprint cause =>
        cases failFast with
        | true =>
          rw [← hname]
          rfl
        | false =>
          rw [← hname]
          exact ih hnext _
      | _ => rfl

theorem Source.SameButLogins.fingerprint (hsource : s.SameButLogins s')
    (hhost : h.SameButLogins h') :
    (s.fingerprint.run.run h).1 = (s'.fingerprint.run.run h').1 := by
  rw [run_fingerprint, run_fingerprint, ← hhost.disk]
  exact hsource.comesTo hhost.answer

/-- What is recorded of a source does not hang on logins. -/
theorem Source.SameButLogins.record (hsource : s.SameButLogins s') (fingerprint : String)
    (metadata : Entries) (now : Time.Moment) :
    s.record fingerprint metadata now = s'.record fingerprint metadata now := by
  obtain ⟨url, hurl, rfl⟩ := hsource
  have hmasked : maskCredentials s.git.url = maskCredentials (s.movedTo url).git.url :=
    maskCredentials_congr hurl
  unfold Source.record
  rw [hmasked]
  rfl

end runs

/-- **Credentials are masked**: of the user information of a web address three stars are left if no
    `@` stands in it, wherever the address lies in a text.  Neither the record of a source nor what
    resolving sources comes to, failures and their causes included, hangs on such credentials in
    the URLs of sources or in what git says when it refuses. -/
theorem credentials_masked (l : Login) {sources sources' : List Source} {h h' : Host}
    (hsources : List.Forall₂ Source.SameButLogins sources sources')
    (hhost : h.SameButLogins h') :
    (maskCredentials l.text = maskCredentials l.before ++ l.scheme ++ l.shown ++ "@" ++
        maskCredentials (l.host ++ l.after) ∧ (l.shown = "***" ↔ '@' ∉ l.info.toList)) ∧
    List.Forall₂ (fun s s' => (s.fingerprint.run.run h).1 = (s'.fingerprint.run.run h').1 ∧
      ∀ fingerprint metadata now,
        s.record fingerprint metadata now = s'.record fingerprint metadata now)
      sources sources' ∧
    ∀ failFast, ((resolveAll sources failFast).run.run h).1 =
      ((resolveAll sources' failFast).run.run h').1 := by
  constructor
  · exact ⟨l.maskCredentials_text, l.shown_eq_stars_iff⟩
  · constructor
    · apply hsources.imp
      intro s s' hsource
      exact ⟨hsource.fingerprint hhost, hsource.record⟩
    · intro failFast
      exact resolveFrom_congr hsources hhost failFast _

section logins

/-- A login with a password. -/
def passwordLogin : Login where
  before := ""
  scheme := "HTTPS://"
  info := "user:tok"
  host := "host"
  after := "/x"
  isWeb := by decide
  info_nonempty := by decide
  info_inside := by decide
  host_inside := by decide
  after_ends := by decide

/-- Another user at the same place. -/
def otherLogin : Login :=
  { passwordLogin with
    info := "me"
    info_nonempty := by decide
    info_inside := by decide }

/-- A login with a password that holds the sign behind the user information. -/
def signLogin : Login :=
  { passwordLogin with
    info := "u:p@ss"
    info_nonempty := by decide
    info_inside := by decide }

/-- The password is masked, and git's refusal is shown as if it spoke of the other user. -/
theorem credentials_masked_of_password :
    '@' ∉ passwordLogin.info.toList ∧
    maskCredentials passwordLogin.text = "HTTPS://***@host/x" ∧
    SameButLogins passwordLogin.text otherLogin.text ∧ passwordLogin.text ≠ otherLogin.text ∧
    ((resolveAll [sourceAt "api" passwordLogin.text "main"] true).run.run
        (answeringHost [] [.refusal passwordLogin.text])).1 =
      ((resolveAll [sourceAt "api" otherLogin.text "main"] true).run.run
        (answeringHost [] [.refusal otherLogin.text])).1 := by
  have hplain : '@' ∉ passwordLogin.info.toList := by decide
  have hlogins : SameButLogins passwordLogin.text otherLogin.text :=
    .single ⟨passwordLogin, otherLogin, hplain, by decide, rfl, rfl, rfl⟩
  have hsources : List.Forall₂ Source.SameButLogins
      [sourceAt "api" passwordLogin.text "main"] [sourceAt "api" otherLogin.text "main"] :=
    .cons ⟨_, hlogins, rfl⟩ .nil
  have hhosts : (answeringHost [] [.refusal passwordLogin.text]).SameButLogins
      (answeringHost [] [.refusal otherLogin.text]) :=
    ⟨rfl, .cons ⟨.refusal hlogins, rfl⟩ .nil⟩
  obtain ⟨⟨hmasked, hshown⟩, -, hruns⟩ := credentials_masked passwordLogin hsources hhosts
  refine ⟨hplain, ?_, hlogins, by decide, hruns true⟩
  rw [hmasked, hshown.mpr hplain]
  decide

/-- **A password with an `@` is shown from there on.** -/
theorem maskCredentials_shows_behind_sign : ∃ l : Login, l.text = "HTTPS://u:p@ss@host/x" ∧
    l.info = "u:p@ss" ∧ maskCredentials l.text = "HTTPS://***@ss@host/x" :=
  ⟨signLogin, by decide, rfl, by decide⟩

end logins

end Regen
