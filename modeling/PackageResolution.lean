import PackageResolution.Text.Blank
import PackageResolution.Text.Quoted
import PackageResolution.NameMap
import PackageResolution.FeatureSet
import PackageResolution.FileTree.Walk
import PackageResolution.Descriptor
import PackageResolution.Project
import PackageResolution.CompilerInfo
import PackageResolution.Diagnostic
import PackageResolution.Session.Resolve
import PackageResolution.Session.Flags
import PackageResolution.Session.Capability
import PackageResolution.Session.Tree
import PackageResolution.Decimal.Shortest
import PackageResolution.Toml.Reader
import PackageResolution.Manifest
import PackageResolution.Target.Schema
import PackageResolution.Config
import PackageResolution.CompilerInfo.Schema
import PackageResolution.Descriptor.Schema
import PackageResolution.Project.File
import PackageResolution.Commands
import PackageResolution.Main
import PackageResolution.Proofs.CapabilityWarnings
import PackageResolution.Proofs.DependencyErrors
import PackageResolution.Proofs.DepthLimits
import PackageResolution.Proofs.DescriptorGrammar
import PackageResolution.Proofs.FailedAdditions
import PackageResolution.Proofs.FingerprintBytes
import PackageResolution.Proofs.Freshness
import PackageResolution.Proofs.OrderIndependence
import PackageResolution.Proofs.Overlaps
import PackageResolution.Proofs.PrintedNames
import PackageResolution.Proofs.ProjectResolution
import PackageResolution.Proofs.Quiescence
import PackageResolution.Proofs.Readings
import PackageResolution.Proofs.Registration
import PackageResolution.Proofs.RegistrationOrder
import PackageResolution.Proofs.Requests
import PackageResolution.Proofs.TreeClosure
import PackageResolution.Proofs.UnmetRequirements
import PackageResolution.Proofs.DescriptorRoundTrip
import PackageResolution.Proofs.PlainNames
import PackageResolution.Proofs.WalkOrder
import PackageResolution.Proofs.DiscoveryOrder
import PackageResolution.Proofs.ConfigLayers
import PackageResolution.Proofs.IncludeDirectories
import PackageResolution.Proofs.SettingsDocuments
import PackageResolution.Proofs.ScopedValues
import PackageResolution.Proofs.FingerprintComponents
