import PlainHeader.CommandLine.Run
import PlainHeader.Disk.Edit
import PlainHeader.Main
import PlainHeader.Proofs.Containers
import PlainHeader.Proofs.Endings
import PlainHeader.Proofs.Locality
import PlainHeader.Proofs.Losses
import PlainHeader.Proofs.ObjectNames
import PlainHeader.Proofs.OneScan
import PlainHeader.Proofs.Repetition
import PlainHeader.Proofs.RuleOrder
import PlainHeader.Proofs.StableHeader
import PlainHeader.Proofs.Convergence
import PlainHeader.Proofs.Margins
import PlainHeader.Proofs.Layout
import PlainHeader.Proofs.Legibility
import PlainHeader.Proofs.Arguments
import PlainHeader.Proofs.DeclaredNames
import PlainHeader.Proofs.BannerComment
