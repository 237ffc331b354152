import ModelForm.Build
import ModelForm.Canonical
import ModelForm.Describe
import ModelForm.Expr.Hash
import ModelForm.Expr.Label
import ModelForm.Expr.Order
import ModelForm.Repair
import ModelForm.Stored.Expr
import ModelForm.Stored.Stmt
import ModelForm.Proofs.Association
import ModelForm.Proofs.CanonicalForm
import ModelForm.Proofs.ChangeLog
import ModelForm.Proofs.DensityNames
import ModelForm.Proofs.Intercepts
import ModelForm.Proofs.LoopBounds
import ModelForm.Proofs.NothingDeprecated
import ModelForm.Proofs.OldSpellings
import ModelForm.Proofs.OneLevel
import ModelForm.Proofs.Ordering
import ModelForm.Proofs.Placement
import ModelForm.Proofs.Rebuild
import ModelForm.Proofs.RedundantGroups
import ModelForm.Proofs.RepairedPrograms
import ModelForm.Proofs.ReportedRenames
import ModelForm.Proofs.Retagging
import ModelForm.Proofs.RoundTrip
import ModelForm.Proofs.Sampling
import ModelForm.Proofs.Spans
import ModelForm.Proofs.Traversals
import ModelForm.Proofs.TypeNames
import ModelForm.Proofs.UserCalls
import ModelForm.Proofs.WorkList
