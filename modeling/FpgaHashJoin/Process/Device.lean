import FpgaHashJoin.Process.Machine

/-!
# A process that drives a device

A device is called: it takes a message when it is sent one, and when it is asked it hands over a
symbol or says that it has none. In contrast to a process at the other end of a channel it does
nothing between the calls, so that a process and its device have only one run together.
-/

namespace Process

/-- What can be done with a device whose states are `D`. -/
structure Device (D ι ο : Type) where
  recv : D → Option ι × D
  send : D → ο → D

variable {D ρ ι ο α S E O : Type}

namespace Device

variable (dev : Device D ι ο)

/-- The process goes from `p` to `q` while the device goes from `d` to `d'`. A blocking read takes
part only if the device has a symbol. -/
inductive Drives : D → Proc ρ ι ο α → D → Proc ρ ι ο α → Prop where
  | refl (d : D) (p : Proc ρ ι ο α) : Drives d p d p
  | recv {d d₁ d' : D} {p q : Proc ρ ι ο α} {site : ρ} {k : ι → Proc ρ ι ο α} {x : ι}
      (hv : p.view = .recv site k) (hx : dev.recv d = (some x, d₁)) (rest : Drives d₁ (k x) d' q) :
      Drives d p d' q
  | poll {d d₁ d' : D} {p q : Proc ρ ι ο α} {site : ρ} {k : Option ι → Proc ρ ι ο α}
      {x : Option ι} (hv : p.view = .poll site k) (hx : dev.recv d = (x, d₁))
      (rest : Drives d₁ (k x) d' q) : Drives d p d' q
  | send {d d' : D} {p k q : Proc ρ ι ο α} {o : ο} (hv : p.view = .send o k)
      (rest : Drives (dev.send d o) k d' q) : Drives d p d' q
  | tau {d d' : D} {p k q : Proc ρ ι ο α} (hv : p.view = .tau k) (rest : Drives d k d' q) :
      Drives d p d' q

variable {dev} {d d' d'' : D} {p q r : Proc ρ ι ο α}

namespace Drives

theorem trans (h : dev.Drives d p d' q) (h' : dev.Drives d' q d'' r) : dev.Drives d p d'' r := by
  induction h with
  | refl => exact h'
  | recv hv hx _ ih => exact .recv hv hx (ih h')
  | poll hv hx _ ih => exact .poll hv hx (ih h')
  | send hv _ ih => exact .send hv (ih h')
  | tau hv _ ih => exact .tau hv (ih h')

/-- A process and its device come to at most one value. -/
theorem unique {a b : α} (h : dev.Drives d p d' (.ret a)) (h' : dev.Drives d p d'' (.ret b)) :
    a = b := by
  generalize hq : Proc.ret a = q at h
  induction h with
  | refl =>
    subst hq
    cases h' with
    | refl => rfl
    | recv hv _ _ => cases hv
    | poll hv _ _ => cases hv
    | send hv _ => cases hv
    | tau hv _ => cases hv
  | recv hv hx _ ih =>
    cases h' with
    | refl => cases hv
    | recv hv' hx' rest' =>
      cases hv.symm.trans hv'
      cases hx.symm.trans hx'
      exact ih rest' hq
    | poll hv' _ _ => cases hv.symm.trans hv'
    | send hv' _ => cases hv.symm.trans hv'
    | tau hv' _ => cases hv.symm.trans hv'
  | poll hv hx _ ih =>
    cases h' with
    | refl => cases hv
    | recv hv' _ _ => cases hv.symm.trans hv'
    | poll hv' hx' rest' =>
      cases hv.symm.trans hv'
      cases hx.symm.trans hx'
      exact ih rest' hq
    | send hv' _ => cases hv.symm.trans hv'
    | tau hv' _ => cases hv.symm.trans hv'
  | send hv _ ih =>
    cases h' with
    | refl => cases hv
    | recv hv' _ _ => cases hv.symm.trans hv'
    | poll hv' _ _ => cases hv.symm.trans hv'
    | send hv' rest' =>
      cases hv.symm.trans hv'
      exact ih rest' hq
    | tau hv' _ => cases hv.symm.trans hv'
  | tau hv _ ih =>
    cases h' with
    | refl => cases hv
    | recv hv' _ _ => cases hv.symm.trans hv'
    | poll hv' _ _ => cases hv.symm.trans hv'
    | send hv' _ => cases hv.symm.trans hv'
    | tau hv' rest' =>
      cases hv.symm.trans hv'
      exact ih rest' hq

end Drives

end Device

end Process
