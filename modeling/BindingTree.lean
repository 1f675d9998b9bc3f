import BindingTree.Main
import BindingTree.Proofs.Build.Accepted
import BindingTree.Proofs.Build.EnumHomes
import BindingTree.Proofs.Build.EnumNames
import BindingTree.Proofs.Build.Faults
import BindingTree.Proofs.Build.InvokerBases
import BindingTree.Proofs.Build.InvokerNames
import BindingTree.Proofs.Build.InvokerPairs
import BindingTree.Proofs.Build.ManagedChain
import BindingTree.Proofs.Build.ManagedLookups
import BindingTree.Proofs.Build.Misspelt
import BindingTree.Proofs.Build.NamespaceBases
import BindingTree.Proofs.Build.Registrations
import BindingTree.Proofs.Build.Rivals
import BindingTree.Proofs.Build.SharedNames
import BindingTree.Proofs.Build.SiblingOrder
import BindingTree.Proofs.Build.StrictPolicy
import BindingTree.Proofs.Build.TypeNesting
import BindingTree.Proofs.Build.ValidNames
import BindingTree.Proofs.Build.Walks
import BindingTree.Proofs.Index.History
import BindingTree.Proofs.Index.Removal
import BindingTree.Proofs.Naming.Affixes
import BindingTree.Proofs.Naming.Validity
import BindingTree.Proofs.Record.KeyOrder
import BindingTree.Proofs.Record.RoundTrip
import BindingTree.Proofs.Record.Visibilities
import BindingTree.Proofs.Index.Refusals
import BindingTree.Proofs.Naming.Segments
import BindingTree.Proofs.Naming.FieldNames
