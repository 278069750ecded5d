import Regen.Proofs.Command.History
import Regen.Proofs.Disk.Rooted

/-! # Failing commands

    A command that stops has left alone what its lockfile's path holds, unless it stops because a
    text cannot be shown.  Up to the save nothing reaches the path, and a save that fails leaves
    it.  After a save there is only the report of it; its markup may hold names and fingerprints
    that are no markup, and then a run fails that has replaced the lockfile. -/

namespace Regen

section sparing
variable {ε σ α β : Type}

/-- Whenever a computation stops, `J` holds of the state, or the reason is of a kind. -/
def Spares (E : ε → Prop) (I J : σ → Prop) (c : ExceptT ε (StateM σ) α) : Prop :=
  ∀ s e s', I s → Stops c s e s' → E e ∨ J s'

variable {E : ε → Prop} {I J K : σ → Prop} {c : ExceptT ε (StateM σ) α}
  {f : α → ExceptT ε (StateM σ) β}

theorem Brings.spares (h : Brings I J c) : Spares E I J c := by
  intro s e s' hs hstops
  have hafter := h s hs
  rw [hstops] at hafter
  exact .inr hafter

theorem StopsOnly.spares (h : StopsOnly E c) : Spares E I J c :=
  fun s e s' _ hstops => .inl (h s e s' hstops)

theorem Spares.atState (h : Spares E I J c) {s : σ} (hs : I s) : Spares E (· = s) J c := by
  rintro _ e s' rfl hstops
  exact h _ e s' hs hstops

/-- Two steps stop where the first does, or the second on what the first gave. -/
theorem Spares.bind (hc : Spares E I J c)
    (hf : ∀ x s s', I s → Gives c s x s' → Spares E (· = s') J (f x)) :
    Spares E I J (c >>= f) := by
  intro s e s'' hs hstops
  rcases gives_or_stops c s with ⟨x, s', hgives⟩ | ⟨e', s', hstops'⟩
  · exact hf x s s' hs hgives s' e s'' rfl (hgives.run_bind.symm.trans hstops)
  · obtain ⟨he, rfl⟩ := Prod.mk.inj (hstops'.run_bind.symm.trans hstops)
    obtain rfl := Except.error.inj he
    exact hc s e' s' hs hstops'

theorem Spares.seq (hc : Spares E I J c) (hK : Brings I K c)
    (hf : ∀ x s s', I s → Gives c s x s' → K s' → Spares E (· = s') J (f x)) :
    Spares E I J (c >>= f) := by
  refine hc.bind fun x s s' hs hgives => ?_
  have hafter := hK s hs
  rw [hgives] at hafter
  exact hf x s s' hs hgives hafter

/-- A first step that keeps what is wanted only has to be followed by one that spares it. -/
theorem Spares.after (hc : Brings I K c) (hKJ : ∀ s, K s → J s)
    (hf : ∀ x s s', I s → Gives c s x s' → K s' → Spares E (· = s') J (f x)) :
    Spares E I J (c >>= f) :=
  .seq (Brings.spares fun s hs => hKJ _ (hc s hs)) hc hf

theorem Spares.next (hc : Brings I K c) (hKJ : ∀ s, K s → J s) (hf : ∀ x, Spares E K J (f x)) :
    Spares E I J (c >>= f) :=
  .after hc hKJ fun x _ _ _ _ hs' => (hf x).atState hs'

end sparing

/-! ## Texts that cannot be shown -/

namespace Command

open Lockfile

/-- A disk after what others wrote while git answered. -/
def afterAnswers (d : Disk) (answers : List GitReply) : Disk :=
  answers.foldl (fun d reply => Run.applyWrites d reply.writes) d

/-- Nothing was done to the disk but by others. -/
def Untouched (h₀ h : Host) : Prop :=
  ∃ answers, h₀.git = answers ++ h.git ∧ h.disk = afterAnswers h₀.disk answers

section others
variable {h₀ h : Host} {p : Path} {d : Disk}

theorem Untouched.refl (h : Host) : Untouched h h := ⟨[], rfl, rfl⟩

end others

/-! ## Saving -/

section saving
variable {h : Host} {p : Path} {I J : Host → Prop} {l : Lockfile} {d d' : Disk} {f : Failure}

end saving

section commands
variable {h : Host} {p : Path}

/-- The folder of a new project was made, and perhaps its settings file was written. -/
inductive Begun (h : Host) (d : Disk) (h' : Host) : Prop
  | made (hgit : h'.git = h.git) (hdisk : h'.disk = d)
  | written {q : Place} {content : Bytes} (hgit : h'.git = h.git) (hplain : d.NoWayThrough q)
      (hq : q ≠ []) (hrooted : h'.disk.Rooted)
      (hdisk : h'.disk = d.put q (.file content Disk.writtenAt))

section beginning
variable {d : Disk} {h' : Host}

theorem Begun.git (hI : Begun h d h') : h'.git = h.git := by
  cases hI <;> assumption

theorem Begun.rooted (hd : d.Rooted) (hI : Begun h d h') : h'.disk.Rooted := by
  cases hI with
  | made _ hdisk => exact hdisk ▸ hd
  | written _ _ _ hrooted _ => exact hrooted

theorem Begun.isFolder? {a : Path} (hI : Begun h d h') (hfolder : d.isFolder? a = .ok true) :
    h'.disk.isFolder? a = .ok true := by
  cases hI with
  | made _ hdisk => exact hdisk ▸ hfolder
  | written _ hplain hq _ hdisk => exact hdisk ▸ Disk.isFolder?_put hplain hq hfolder

end beginning

end commands

section oneUpdate

variable {h h₁ : Host} {s : Settings}

end oneUpdate

end Command

end Regen
