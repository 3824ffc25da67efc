import SecureBoot.Main
import SecureBoot.Proofs.EfiImage.Coverage
import SecureBoot.Proofs.EfiImage.Edited
import SecureBoot.Proofs.EfiImage.Editing
import SecureBoot.Proofs.EfiImage.Framing
import SecureBoot.Proofs.FileOperations.Progress
import SecureBoot.Proofs.Pe.ApplySectionsTwice
import SecureBoot.Proofs.Pe.FailedEdits
import SecureBoot.Proofs.Pe.HeaderPages
import SecureBoot.Proofs.RepeatedSigning
import SecureBoot.Proofs.SignatureDatabase.Cutting
import SecureBoot.Proofs.VendorDatabase
import SecureBoot.Proofs.Pe.StableNames
import SecureBoot.Proofs.Agreement
import SecureBoot.Proofs.Pe.Layout.Bounds
import SecureBoot.Proofs.Pe.Layout.StatedSizes
import SecureBoot.Proofs.UnifiedKernel
import SecureBoot.Proofs.SignatureList.Sizes
import SecureBoot.Proofs.Bundle
import SecureBoot.Proofs.Enrollment
